import Rtbus.Emos.Core

/-!
# The public functions of the bus

`rtbus.c` wraps the event core and adds delayed events: a fixed table of slots, each of which holds
an event until the clock has reached its due time. `rtbus_process` first moves the events that are
due into the task queues, in slot order, and goes on to `emos_process` only if that succeeded.

`payloadMax` is `CONFIG_RTBUS_DELAYED_EVENT_PAYLOAD_MAX`; the length of the table is fixed by
`CONFIG_RTBUS_DELAYED_EVENT_DEPTH` and never changes.
-/

namespace Rtbus.Emos

variable {H X : Type}

/-- `k_uptime_get_32`. -/
def uptime32 (s : Bus H X) : UInt32 := UInt32.ofNat s.uptime

/-- `rtbus_due_reached`: the signed 32-bit difference is not negative. -/
def dueReached (nowMs dueMs : UInt32) : Bool := (nowMs - dueMs).toNat < 2 ^ 31

/-- `rtbus_reset_delayed_events`. -/
def resetDelayedEvents (s : Bus H X) : Bus H X :=
  { s with delayed := s.delayed.map fun _ => DelayedEvent.zero }

/-- `rtbus_init`. -/
def rtbusInit (s : Bus H X) (poolAddr poolSize : Nat) (entryTbl : Option (EntryTable H)) :
    Option (Bus H X × Ret) :=
  match emosInit (resetDelayedEvents s) poolAddr poolSize entryTbl with
  | none => none
  | some (s, .ok) => some (s, .ok)
  | some (s, .err e) => some (resetDelayedEvents s, .err e)

/-- `rtbus_post`. -/
def rtbusPost (s : Bus H X) (args : PostArgs) : Option (Bus H X × Ret) :=
  match emosPost s args with
  | none => none
  | some (s, .err .ENOENT) => some (s, .err .ENOTSUP)
  | some (s, ret) => some (s, ret)

/-- The slot that `rtbus_post_delay` fills. -/
def PostArgs.delayedEvent (args : PostArgs) (dueMs : UInt32)
    (given : args.payload = none → args.payloadLen = 0) : DelayedEvent :=
  { used := true
    taskId := args.taskId
    ctxId := args.ctxId
    payloadLen := args.payloadLen
    dueMs := dueMs
    payload := args.bytes
    length_eq := by
      unfold PostArgs.bytes
      rw [List.length_take]
      cases h : args.payload with
      | none =>
        rw [given h]
        rfl
      | some bytes => exact Nat.min_eq_left (args.readable bytes h) }

/-- `rtbus_post_delay`. -/
def rtbusPostDelay (payloadMax : Nat) (s : Bus H X) (args : PostArgs) (delayMs : UInt32) :
    Option (Bus H X × Ret) :=
  if delayMs = 0 then rtbusPost s args
  else if h : args.payloadLen ≠ 0 ∧ args.payload = none then some (s, .err .EINVAL)
  else if args.payloadLen.toNat > payloadMax then some (s, .err .EMSGSIZE)
  else
    match s.delayed.findIdx? (fun event => !event.used) with
    | none => some (s, .err .ENOMEM)
    | some i =>
      let event := args.delayedEvent (uptime32 s + delayMs) fun hnone =>
        Classical.not_not.mp fun hlen => h ⟨hlen, hnone⟩
      some (eventSignal { s with delayed := s.delayed.set i event }, .ok)

/-- The post that `rtbus_move_due_events` makes for a slot. -/
def DelayedEvent.args (event : DelayedEvent) : PostArgs :=
  { taskId := event.taskId
    ctxId := event.ctxId
    payload := if event.payloadLen = 0 then none else some event.payload
    payloadLen := event.payloadLen
    readable := by
      intro bytes h
      split at h
      · cases h
      · cases h
        exact Nat.le_of_eq event.length_eq.symm }

/-- A slot is posted with all bytes it stores. -/
theorem DelayedEvent.args_bytes (event : DelayedEvent) : event.args.bytes = event.payload := by
  unfold PostArgs.bytes
  show ((if event.payloadLen = 0 then none else some event.payload).getD []).take
    event.payloadLen.toNat = event.payload
  have hlen := event.length_eq
  by_cases hzero : event.payloadLen = 0
  · rw [if_pos hzero]
    rw [hzero] at hlen
    rw [List.eq_nil_of_length_eq_zero hlen]
    exact List.take_nil
  · rw [if_neg hzero]
    exact List.take_of_length_le (Nat.le_of_eq hlen)

/-- The loop of `rtbus_move_due_events` over the slots: the state of the event core, the slots
afterwards, and the result. -/
def moveDueFrom (nowMs : UInt32) :
    List DelayedEvent → Bus H X → Option (Bus H X × List DelayedEvent × Ret)
  | [], s => some (s, [], .ok)
  | event :: rest, s =>
    if event.used = false ∨ dueReached nowMs event.dueMs = false then
      match moveDueFrom nowMs rest s with
      | none => none
      | some (s, rest, ret) => some (s, event :: rest, ret)
    else
      match emosPost s event.args with
      | none => none
      | some (s, .err e) => some (s, event :: rest, .err e)
      | some (s, .ok) =>
        match moveDueFrom nowMs rest s with
        | none => none
        | some (s, rest, ret) => some (s, DelayedEvent.zero :: rest, ret)

/-- `rtbus_move_due_events`. -/
def moveDueEvents (s : Bus H X) : Option (Bus H X × Ret) :=
  match moveDueFrom (uptime32 s) s.delayed s with
  | none => none
  | some (s, delayed, ret) => some ({ s with delayed := delayed }, ret)

/-- `rtbus_process`. -/
def rtbusProcess (async : Bus H X → Option (Bus H X × Ret)) (handle : Handle H X) (s : Bus H X) :
    Option (Bus H X × Outcome H) :=
  match moveDueEvents s with
  | none => none
  | some (s, .err e) => some (s, .failed e)
  | some (s, .ok) => emosProcess async handle s

end Rtbus.Emos
