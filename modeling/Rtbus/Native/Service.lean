import Rtbus.Emos.Facade

/-!
# The native service

The native application runs in a thread of its own and reaches the runtime through an API table.
What it asks of a runtime task it puts on `native_rtbus_post_msgq`; the runtime takes it from there
into the task queues. A task answers with `native_service_complete_result`, which writes a word of
application RAM and gives `native_result_sem`. An upgrade stops the thread and purges what the
runtime keeps for it; afterwards the component in flash is loaded and started again.

`Service` holds the statics of `native_service.c`. Two of its fields are history that the code does
not keep: `accepted`, every message that `native_api_rtbus_post` ever took, in order, and `era`,
how often the thread was stopped by force. A queued message is a `Request`: the message with its
number among the accepted ones and the era it was posted in.
-/

namespace Rtbus.Native

open Rtbus.Emos

/-- `NATIVE_RTBUS_POST_QUEUE_DEPTH`. -/
def postQueueDepth : Nat := 8

/-- `NATIVE_RTBUS_POST_PAYLOAD_MAX`. -/
def postPayloadMax : Nat := 32

/-- `native_rtbus_post_msg`, with the `payload_len` bytes of its payload that are in use. -/
structure PostMsg where
  taskId : UInt8
  ctxId : UInt32
  payload : List UInt8
  length_le : payload.length ≤ postPayloadMax
  deriving DecidableEq

/-- A message on the queue, with its number and the era it was posted in. -/
structure Request where
  msg : PostMsg
  number : Nat
  era : Nat
  deriving DecidableEq

/-- `runtime_event_tlv`. -/
structure RuntimeEvent where
  group : UInt16
  tag : UInt16
  value : List UInt8

/-- What the build fixes: `CONFIG_RTBUS_DELAYED_EVENT_PAYLOAD_MAX`,
`CONFIG_RTBUS_DIAGNOSTICS_SERVICE`, `NATIVE_RAM_BASE` and `NATIVE_RAM_SIZE`. -/
structure Config where
  delayedPayloadMax : Nat
  diagnosticsService : Bool
  ramBase : Nat
  ramSize : Nat

/-- The statics of the native service. `threadId` says whether `native_thread_id` is set. -/
structure Service where
  threadId : Bool
  entry : Option Nat
  patchHandoff : Bool
  lastError : Ret
  consoleSuppressed : Bool
  apiBusy : Nat
  postMsgq : List Request
  eventMsgq : List RuntimeEvent
  wakeIrq : Bool
  wakeProcess : Bool
  resultSem : Nat
  eventCallback : Option Nat
  ram : Memory
  accepted : List Request
  era : Nat

/-- The statics after boot. -/
def Service.boot : Service :=
  { threadId := false, entry := none, patchHandoff := false, lastError := .ok,
    consoleSuppressed := false, apiBusy := 0, postMsgq := [], eventMsgq := [], wakeIrq := false,
    wakeProcess := false, resultSem := 0, eventCallback := none, ram := fun _ => 0, accepted := [],
    era := 0 }

/-! ## Posting from the application -/

/-- What `rtbus_process_async_posts` posts for a message. -/
def PostMsg.args (msg : PostMsg) : PostArgs :=
  { taskId := msg.taskId
    ctxId := msg.ctxId
    payload := if msg.payload.length = 0 then none else some msg.payload
    payloadLen := UInt32.ofNat msg.payload.length
    readable := by
      intro bytes h
      split at h
      · cases h
      · cases h
        exact Nat.le_of_eq (UInt32.toNat_ofNat_of_lt' (Nat.lt_of_le_of_lt msg.length_le (by decide))) }

/-- The message that `native_api_rtbus_post` builds. -/
def postMsg (args : PostArgs) (small : args.payloadLen.toNat ≤ postPayloadMax) : PostMsg :=
  { taskId := args.taskId
    ctxId := args.ctxId
    payload := args.bytes
    length_le := Nat.le_trans (by
      unfold PostArgs.bytes
      rw [List.length_take]
      exact Nat.min_le_left _ _) small }

variable {H : Type}

/-- `native_api_rtbus_post`. -/
def nativeApiRtbusPost (args : PostArgs) (s : Bus H Service) : Bus H Service × Ret :=
  if small : args.payloadLen.toNat ≤ postPayloadMax then
    if args.payloadLen ≠ 0 ∧ args.payload = none then (s, .err .EINVAL)
    else if s.rest.postMsgq.length ≥ postQueueDepth then (s, .err .ENOMSG)
    else
      let request := ⟨postMsg args small, s.rest.accepted.length, s.rest.era⟩
      let native := { s.rest with
        postMsgq := s.rest.postMsgq ++ [request]
        accepted := s.rest.accepted ++ [request] }
      (eventSignal { s with rest := native }, .ok)
  else (s, .err .EMSGSIZE)

/-- The context that the task gets for a message. -/
def PostMsg.ctx (msg : PostMsg) : Ctx :=
  { taskId := msg.taskId, id := msg.ctxId, payload := msg.payload }

theorem PostMsg.length_toNat (msg : PostMsg) :
    (UInt32.ofNat msg.payload.length).toNat = msg.payload.length :=
  UInt32.toNat_ofNat_of_lt' (Nat.lt_of_le_of_lt msg.length_le (by decide))

/-- The post for a message hands its bytes over. -/
theorem PostMsg.args_ctx (msg : PostMsg) : msg.args.ctx = msg.ctx := by
  have hbytes : msg.args.bytes = msg.payload := by
    unfold PostArgs.bytes
    show List.take (UInt32.ofNat msg.payload.length).toNat
      ((if msg.payload.length = 0 then none else some msg.payload).getD []) = _
    rw [msg.length_toNat]
    split
    · rename_i h
      rw [List.length_eq_zero_iff.mp h]
      rfl
    · exact List.take_length
  show Ctx.mk msg.taskId msg.ctxId msg.args.bytes = _
  rw [hbytes]
  rfl

/-- The block of a message is small. -/
theorem PostMsg.args_fits (msg : PostMsg) : msg.args.payloadLen.toNat + 16 < 2 ^ 32 := by
  have := msg.length_le
  show (UInt32.ofNat msg.payload.length).toNat + 16 < 2 ^ 32
  rw [msg.length_toNat]
  unfold postPayloadMax at this
  omega

/-! ## Results -/

/-- `native_result_addr_valid`. -/
def nativeResultAddrValid (cfg : Config) (resultAddr : UInt32) : Bool :=
  resultAddr.toNat % 4 = 0 ∧ cfg.ramBase ≤ resultAddr.toNat ∧
    resultAddr.toNat ≤ cfg.ramBase + cfg.ramSize - 4

/-- `native_service_complete_result`. -/
def nativeServiceCompleteResult (cfg : Config) (resultAddr result : UInt32) (s : Service) :
    Service × Ret :=
  if resultAddr = 0 then (s, .ok)
  else if nativeResultAddrValid cfg resultAddr = false then (s, .err .EINVAL)
  else
    ({ s with
        ram := s.ram.store32 resultAddr.toNat result.toNat
        resultSem := min (s.resultSem + 1) 1
        wakeProcess := true }, .ok)

/-! ## Stopping and starting -/

/-- `native_service_request_stop_for_upgrade`. -/
def nativeServiceRequestStopForUpgrade (s : Service) : Service :=
  { s with patchHandoff := true, consoleSuppressed := true, wakeProcess := true }

/-- `native_service_force_stop_thread`. -/
def nativeServiceForceStopThread (s : Service) : Service :=
  { s with
    threadId := false
    entry := none
    eventCallback := none
    postMsgq := []
    eventMsgq := []
    resultSem := 0
    wakeIrq := false
    wakeProcess := false
    era := s.era + 1 }

/-- The loop of `native_service_handoff_ram_for_patch`. A turn reads `native_api_busy` and whether
the deadline has passed; `none` if the loop has not ended with the given turns. -/
def handoffLoop : List (Nat × Bool) → Service → Option (Service × Ret)
  | [], _ => none
  | (busy, expired) :: turns, s =>
    if busy = 0 then some (nativeServiceForceStopThread s, .ok)
    else if expired then some (s, .err .ETIMEDOUT)
    else handoffLoop turns s

/-- `native_service_handoff_ram_for_patch`, which `native_service_stop_for_upgrade` is. -/
def nativeServiceHandoffRamForPatch (turns : List (Nat × Bool)) (s : Service) :
    Option (Service × Ret) :=
  let s := nativeServiceRequestStopForUpgrade s
  if s.threadId = false then some (s, .ok) else handoffLoop turns s

/-- The outcome of `native_load`: its result, the entry address it sets if that is zero, and the
application RAM afterwards. -/
structure Loaded where
  ret : Ret
  entry : Nat
  ram : Memory

/-- `native_service_start`. -/
def nativeServiceStart (loaded : Loaded) (s : Service) : Service × Ret :=
  if s.patchHandoff then (s, .err .EBUSY)
  else if s.threadId then (s, .ok)
  else
    match loaded.ret with
    | .err e =>
      ({ nativeServiceForceStopThread { s with ram := loaded.ram } with lastError := .err e }, .err e)
    | .ok =>
      ({ s with ram := loaded.ram, entry := some loaded.entry, lastError := .ok, threadId := true },
        .ok)

/-- `native_service_resume_after_upgrade`. -/
def nativeServiceResumeAfterUpgrade (loaded : Loaded) (s : Service) : Service :=
  let s := nativeServiceForceStopThread { s with patchHandoff := false, apiBusy := 0 }
  { (nativeServiceStart loaded s).1 with consoleSuppressed := false }

/-- How the loop of the handoff ends: the thread is stopped, or the time is up. -/
theorem handoffLoop_cases {turns : List (Nat × Bool)} {s : Service} {done : Service × Ret}
    (h : handoffLoop turns s = some done) :
    done = (nativeServiceForceStopThread s, .ok) ∨ done = (s, .err .ETIMEDOUT) := by
  induction turns with
  | nil => cases h
  | cons turn turns ih =>
    unfold handoffLoop at h
    split at h
    · cases h
      exact .inl rfl
    · split at h
      · cases h
        exact .inr rfl
      · exact ih h

/-- How a handoff ends: there was no thread, or it is stopped, or the time is up. -/
theorem handoff_cases {turns : List (Nat × Bool)} {s : Service} {done : Service × Ret}
    (h : nativeServiceHandoffRamForPatch turns s = some done) :
    (s.threadId = false ∧ done = (nativeServiceRequestStopForUpgrade s, .ok)) ∨
      (s.threadId = true ∧
        (done = (nativeServiceForceStopThread (nativeServiceRequestStopForUpgrade s), .ok) ∨
          done = (nativeServiceRequestStopForUpgrade s, .err .ETIMEDOUT))) := by
  unfold nativeServiceHandoffRamForPatch at h
  dsimp only at h
  split at h
  · rename_i hthread
    cases h
    exact .inl ⟨hthread, rfl⟩
  · rename_i hthread
    have hthread : ¬ s.threadId = false := hthread
    exact .inr ⟨by simpa using hthread, handoffLoop_cases h⟩

/-- How a start ends: it changes nothing, or there was no thread and the load has failed, or there
is one now. -/
theorem start_cases (loaded : Loaded) (s : Service) :
    (nativeServiceStart loaded s).1 = s ∨
      (s.threadId = false ∧ s.patchHandoff = false ∧
        ((∃ e, (nativeServiceStart loaded s).1 =
          { nativeServiceForceStopThread { s with ram := loaded.ram } with lastError := .err e }) ∨
        (nativeServiceStart loaded s).1 =
          { s with
            ram := loaded.ram, entry := some loaded.entry, lastError := .ok, threadId := true })) := by
  unfold nativeServiceStart
  split
  · exact .inl rfl
  · rename_i hbusy
    split
    · exact .inl rfl
    · rename_i hthread
      refine .inr ⟨by simpa using hthread, by simpa using hbusy, ?_⟩
      split
      · exact .inl ⟨_, rfl⟩
      · exact .inr rfl

/-! ## Requests with a result -/

/-- The tasks of the runtime, under their `task_entry` functions: `rtbus_diagnostics_process`,
`rtbus_cli_process`, `rtbus_runtime_serial_process`, `rtbus_ble_process`, or any other. -/
inductive Task
  | diagnostics
  | cli
  | runtimeSerial
  | ble
  | other (id : Nat)
  deriving DecidableEq

/-- `APPLICATION_APP_EVT`. -/
def applicationAppEvt (appId : UInt32) : UInt32 := appId &&& 0x0FFFFFFF

/-- The payload size at which a task serves a request that has a result, by context id. -/
def Task.requestSize (cfg : Config) (task : Task) (id : UInt32) : Option Nat :=
  match task with
  | .diagnostics => if id = applicationAppEvt 1 ∧ cfg.diagnosticsService then some 12 else none
  | .runtimeSerial => if id = applicationAppEvt 1 then some 12 else none
  | .ble =>
    if id = applicationAppEvt 2 then some 8
    else if id = applicationAppEvt 3 then some 12
    else if id = applicationAppEvt 4 then some 8
    else if id = applicationAppEvt 5 then some 8
    else if id = applicationAppEvt 6 then some 12
    else none
  | .cli => none
  | .other _ => none

/-- The first word of a payload, little-endian. -/
def firstWord (payload : List UInt8) : UInt32 :=
  (payload.take 4).foldr (fun b w => w <<< 8 ||| b.toUInt32) 0

/-- The address at which a task completes a request, if it serves the context as one: the payload
has the size of the request, and the address is its first word. -/
def Task.resultAddr (cfg : Config) (task : Task) (ctx : Ctx) : Option UInt32 :=
  if task.requestSize cfg ctx.id = some ctx.payload.length then some (firstWord ctx.payload)
  else none

/-- A request that its task completes for the application: the result is written and the semaphore
given. -/
def Task.Completes (cfg : Config) (task : Task) (ctx : Ctx) : Prop :=
  ∃ addr, task.resultAddr cfg ctx = some addr ∧ addr ≠ 0 ∧ nativeResultAddrValid cfg addr = true

end Rtbus.Native
