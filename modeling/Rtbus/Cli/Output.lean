import Rtbus.Cli.Dfu
import Rtbus.Serial.Router

/-!
# Output on the serial ports

The application writes with `rtbus_serial_write` and `rtbus_serial_vprintf`, byte by byte, and may
be preempted between two bytes. An upgrade takes port 0 from it: the console is suppressed, the
thread stopped, and `READY`, the answers of the YMODEM receiver and the last line are written by the
runtime. `native_api_busy` keeps the stop away from a write that has begun.

`Output` is the application thread and `rtbus_cli_dfu_handler`, which take their steps in any order:
the handler runs in the runtime thread, which the application does not preempt, so a step of it goes
from one place where it may block to the next. The receiver is anything that writes bytes. Whatever
happens, what goes out is one whole write behind the other (`whole_writes`).
-/

namespace Rtbus.Cli

open Rtbus.Native Rtbus.Serial

/-! ## Writing -/

/-- What the devicetree says: whether `rtbus,application-serial1` is chosen, and which of the ports
are `zephyr,cdc-acm-uart`. -/
structure SerialNodes where
  hasSerial1 : Bool
  isCdc : Fin 2 → Bool

/-- What a device answers: `device_is_ready`, and `uart_line_ctrl_get` for `UART_LINE_CTRL_DTR`, if
that succeeds. -/
structure Link where
  deviceIsReady : Bool
  dtr : Option UInt32

/-- A port takes bytes: a CDC port does while the host holds DTR. -/
def txReady (isCdc : Bool) (link : Link) : Bool := !isCdc || link.dtr.any (· ≠ 0)

variable (nodes : SerialNodes)

/-- `native_api_serial_device`. -/
def nativeApiSerialDevice (port : UInt32) : Option (Fin 2) :=
  if port = 0 then some port0 else if port = 1 ∧ nodes.hasSerial1 then some port1 else none

/-- `native_api_serial_is_cdc`. -/
def nativeApiSerialIsCdc (port : UInt32) : Bool :=
  match nativeApiSerialDevice nodes port with
  | some device => nodes.isCdc device
  | none => false

/-- `native_api_serial_tx_ready`. -/
def nativeApiSerialTxReady (port : UInt32) (link : Link) : Bool :=
  txReady (nativeApiSerialIsCdc nodes port) link

/-- The checks of `rtbus_runtime_serial_write` on port 0, the last of which is
`rtbus_runtime_serial_tx_ready`. -/
def rtbusRuntimeSerialWritable (prepared : Bool) (data : List UInt8) (link : Link) : Bool :=
  prepared && !data.isEmpty && link.deviceIsReady && txReady (nodes.isCdc port0) link

/-- The size of the buffer of `native_api_serial_vprintf`. -/
def vprintfBufferSize : Nat := 160

/-- `"READY\r\n"`. -/
def readyLine : List UInt8 := [82, 69, 65, 68, 89, cr, lf]

/-- `"MODULE STAGED\r\n"`. -/
def stagedLine : List UInt8 := [77, 79, 68, 85, 76, 69, 32, 83, 84, 65, 71, 69, 68, cr, lf]

/-- `"ERROR\r\n"`. -/
def errorLine : List UInt8 := [69, 82, 82, 79, 82, cr, lf]

/-- Who writes. -/
inductive Writer
  | application
  | runtime
  deriving DecidableEq

/-- A byte for `uart_poll_out`, with the port and who writes it. -/
structure Sent where
  writer : Writer
  port : Fin 2
  byte : UInt8
  deriving DecidableEq

/-- A write that has returned, with the number of bytes. -/
structure Write where
  writer : Writer
  port : Fin 2
  data : List UInt8
  returned : Nat

/-- What it has sent. -/
def Write.sent (w : Write) : List Sent := (w.data.take w.returned).map (⟨w.writer, w.port, ·⟩)

/-- Where the application is: outside of the calls that hold `native_api_busy`, in
`native_api_rtbus_post`, in `native_api_serial_vprintf` before its check or with its text, or in
`native_api_serial_write` before its check, behind it, with the device found ready, or in its
loop, with what it was given and how much of it is written. -/
inductive OutputPc
  | outside
  | posting
  | printing (port : UInt32) (fmt : Option (List UInt8))
  | formatting (port : UInt32) (text : List UInt8)
  | entered (port : UInt32) (data : Option (List UInt8))
  | passed (port : UInt32) (data : List UInt8)
  | linked (device : Fin 2) (data : List UInt8)
  | sending (device : Fin 2) (data : List UInt8) (written : Nat) (within : written ≤ data.length)

/-- What follows a write of the handler. -/
inductive AfterWrite
  | receiving
  | closing

/-- Where `rtbus_cli_dfu_handler` is: not called, in the loop of the stop, behind it, in the loop of
`rtbus_runtime_serial_write`, in `rtbus_ymodem_recv`, behind that, or before the application is
resumed. -/
inductive UpgradePc
  | idle
  | waiting
  | stopped
  | writing (data : List UInt8) (written : Nat) (within : written ≤ data.length)
      (next : AfterWrite)
  | receiving
  | received (ret : Ret)
  | closing

/-- The native service, the application and the handler. History are `out`, the bytes that were
given to `uart_poll_out`, and `writes`, the writes that have returned. -/
structure Output where
  service : Service
  app : OutputPc
  handler : UpgradePc
  out : List Sent
  writes : List Write

/-- What may happen next. The application calls, or takes the next step of its call; the handler is
called, reads `native_api_busy`, writes its lines and those of the receiver, and resumes the
application; `rtbus_diagnostics_process` starts it. -/
inductive OutputEvent
  | callPost
  | callVprintf (port : UInt32) (fmt : Option (List UInt8))
  | callWrite (port : UInt32) (data : Option (List UInt8))
  | turn (link : Link)
  | dfu
  | poll (expired : Bool)
  | ready (prepared : Bool) (link : Link) (loaded : Loaded)
  | put (byte : UInt8) (prepared : Bool) (link : Link)
  | received (ret : Ret)
  | close (prepared : Bool) (link : Link)
  | next
  | resume (loaded : Loaded)
  | start (loaded : Loaded)

/-- Before its loop nothing of a write is written. -/
theorem nothing_written (data : List UInt8) : 0 ≤ data.length := Nat.zero_le _

namespace AfterWrite

/-- Where the handler is behind the write. -/
def pc : AfterWrite → UpgradePc
  | receiving => .receiving
  | closing => .closing

end AfterWrite

namespace Output

variable (s : Output)

/-- `atomic_inc(&native_api_busy)`. -/
def enter : Output := { s with service := { s.service with apiBusy := s.service.apiBusy + 1 } }

/-- `atomic_dec(&native_api_busy)`. -/
def leave : Output := { s with service := { s.service with apiBusy := s.service.apiBusy - 1 } }

/-- A call of the application on a device returns 0, or on none. -/
def refuse (device : Option (Fin 2)) (data : List UInt8) : Output :=
  { s with
    app := .outside
    writes := s.writes ++ device.toList.map fun device => ⟨.application, device, data, 0⟩ }

/-- The next step of the application's call. -/
def turn (link : Link) : Option Output :=
  match s.app with
  | .outside => none
  | .posting => some { s.leave with app := .outside }
  | .printing port none => some (s.refuse (nativeApiSerialDevice nodes port) [])
  | .printing port (some text) =>
    if s.service.consoleSuppressed then some (s.refuse (nativeApiSerialDevice nodes port) text)
    else some { s.enter with app := .formatting port text }
  | .formatting port text =>
    if text = [] then some (s.leave.refuse (nativeApiSerialDevice nodes port) [])
    else some { s.leave with app := .entered port (some (text.take (vprintfBufferSize - 1))) }
  | .entered port none => some (s.refuse (nativeApiSerialDevice nodes port) [])
  | .entered port (some data) =>
    if data = [] ∨ s.service.consoleSuppressed then
      some (s.refuse (nativeApiSerialDevice nodes port) data)
    else some { s with app := .passed port data }
  | .passed port data =>
    match nativeApiSerialDevice nodes port with
    | none => some (s.refuse none data)
    | some device =>
      if link.deviceIsReady && nativeApiSerialTxReady nodes port link then
        some { s with app := .linked device data }
      else some (s.refuse (some device) data)
  | .linked device data => some { s.enter with app := .sending device data 0 (nothing_written data) }
  | .sending device data written _ =>
    if more : written < data.length then
      some { s with
        app := .sending device data (written + 1) more
        out := s.out ++ [⟨.application, device, data[written]⟩] }
    else
      some { s.leave with
        app := .outside
        writes := s.writes ++ [⟨.application, device, data, written⟩] }

/-- The application calls; it runs while its thread exists. -/
def call (pc : OutputPc) : Option Output :=
  if s.service.threadId then
    match s.app with
    | .outside => some { s with app := pc }
    | _ => none
  else none

/-- A write of the handler begins, or is refused. -/
def begin (data : List UInt8) (prepared : Bool) (link : Link) (next : AfterWrite) : Output :=
  if rtbusRuntimeSerialWritable nodes prepared data link then
    { s with handler := .writing data 0 (nothing_written data) next }
  else { s with handler := next.pc, writes := s.writes ++ [⟨.runtime, port0, data, 0⟩] }

/-- `native_service_resume_after_upgrade`, with which the handler ends. -/
def resumed (loaded : Loaded) : Output :=
  { s with
    service := nativeServiceResumeAfterUpgrade loaded s.service
    app := .outside
    handler := .idle }

/-- The handler's first steps. -/
def dfu : Output :=
  let service := nativeServiceRequestStopForUpgrade (nativeServiceSuppressConsole true s.service)
  { s with service := service, handler := if service.threadId = false then .stopped else .waiting }

/-- A turn of the loop of `native_service_handoff_ram_for_patch`. -/
def poll (expired : Bool) : Output :=
  match handoffLoop [(s.service.apiBusy, expired)] s.service with
  | none => s
  | some (service, .ok) => { s with service := service, app := .outside, handler := .stopped }
  | some (service, .err _) =>
    { s with service := nativeServiceSuppressConsole false service, handler := .idle }

/-- The next step of a write of the handler. -/
def next : Option Output :=
  match s.handler with
  | .writing data written _ next =>
    if more : written < data.length then
      some { s with
        handler := .writing data (written + 1) more next
        out := s.out ++ [⟨.runtime, port0, data[written]⟩] }
    else
      some { s with
        handler := next.pc
        writes := s.writes ++ [⟨.runtime, port0, data, written⟩] }
  | _ => none

/-- What an event does, if it can happen. -/
def step : OutputEvent → Output → Option Output
  | .callPost, s => s.enter.call .posting
  | .callVprintf port fmt, s => s.call (.printing port fmt)
  | .callWrite port data, s => s.call (.entered port data)
  | .turn link, s => s.turn nodes link
  | .dfu, s =>
    match s.handler with
    | .idle => some s.dfu
    | _ => none
  | .poll expired, s =>
    match s.handler with
    | .waiting => some (s.poll expired)
    | _ => none
  | .ready prepared link loaded, s =>
    match s.handler with
    | .stopped =>
      if rtbusRuntimeSerialWritable nodes prepared readyLine link then
        some (s.begin nodes readyLine prepared link .receiving)
      else
        let s := s.begin nodes readyLine prepared link .receiving
        let s := s.resumed loaded
        some { s with service := nativeServiceSuppressConsole false s.service }
    | _ => none
  | .put byte prepared link, s =>
    match s.handler with
    | .receiving => some (s.begin nodes [byte] prepared link .receiving)
    | _ => none
  | .received ret, s =>
    match s.handler with
    | .receiving => some { s with handler := .received ret }
    | _ => none
  | .close prepared link, s =>
    match s.handler with
    | .received .ok => some (s.begin nodes stagedLine prepared link .closing)
    | .received (.err _) => some (s.begin nodes errorLine prepared link .closing)
    | _ => none
  | .next, s => s.next
  | .resume loaded, s =>
    match s.handler with
    | .closing => some (s.resumed loaded)
    | _ => none
  | .start loaded, s =>
    match s.handler with
    | .idle => some { s with service := (nativeServiceStart loaded s.service).1 }
    | _ => none

/-- A step with an event. -/
def Step (s : Output) (e : OutputEvent) (s' : Output) : Prop := step nodes e s = some s'

/-- After boot there is no application, and nothing has been written. -/
def Start (s : Output) : Prop :=
  s.service = .boot ∧ s.app = .outside ∧ s.handler = .idle ∧ s.out = [] ∧ s.writes = []

end Output

/-! ## One write behind the other -/

/-- What a call adds to `native_api_busy`. -/
def OutputPc.holds : OutputPc → Nat
  | .posting | .formatting _ _ | .sending _ _ _ _ => 1
  | _ => 0

/-- What a write that has not returned yet has sent. -/
def OutputPc.begun : OutputPc → List Sent
  | .sending device data written _ => (data.take written).map (⟨.application, device, ·⟩)
  | _ => []

/-- What a write that has passed its check may still send. -/
def OutputPc.owed : OutputPc → List UInt8
  | .passed _ data | .linked _ data => data
  | .sending _ data written _ => data.drop written
  | _ => []

/-- What a write of the handler that has not returned yet has sent. -/
def UpgradePc.begun : UpgradePc → List Sent
  | .writing data written _ _ => (data.take written).map (⟨.runtime, port0, ·⟩)
  | _ => []

/-- The upgrade has the port: the application is stopped and not yet resumed. -/
def UpgradePc.upgrading : UpgradePc → Bool
  | .idle | .waiting => false
  | _ => true

namespace Output

/-- A step of one of the two writers sends a byte of its write, or ends writes or refuses them. -/
def Accounts (writer : Writer) (s s' : Output) (begun begun' : List Sent) : Prop :=
  (∃ byte : Sent, byte.writer = writer ∧ s'.out = s.out ++ [byte] ∧ s'.writes = s.writes ∧
      begun' = begun ++ [byte]) ∨
    (s'.out = s.out ∧ ∃ more, s'.writes = s.writes ++ more ∧
      more.flatMap Write.sent ++ begun' = begun ∧
      ∀ w ∈ more, w.returned = 0 ∨ w.returned = w.data.length)

variable {nodes : SerialNodes} {s s' : Output} {writer : Writer} {begun begun' : List Sent}

/-- A step that sends nothing and ends no write. -/
theorem Accounts.none (out : s'.out = s.out) (writes : s'.writes = s.writes)
    (same : begun' = begun) : Accounts writer s s' begun begun' :=
  .inr ⟨out, [], writes.trans (List.append_nil _).symm, same, fun _ h => nomatch h⟩

/-- A write is refused, or a call is not one of a device. -/
theorem Accounts.refused {more : List Write} (out : s'.out = s.out)
    (writes : s'.writes = s.writes ++ more) (zero : ∀ w ∈ more, w.returned = 0)
    (same : begun' = begun) : Accounts writer s s' begun begun' := by
  refine .inr ⟨out, more, writes, ?_, fun w hw => .inl (zero w hw)⟩
  have hnone : more.flatMap Write.sent = [] := by
    refine List.flatMap_eq_nil_iff.mpr fun w hw => ?_
    unfold Write.sent
    rw [zero w hw]
    rfl
  rw [hnone, same]
  rfl

/-- A write sends its next byte. -/
theorem Accounts.byte {data : List UInt8} {written : Nat} {port : Fin 2}
    (more : written < data.length) (out : s'.out = s.out ++ [⟨writer, port, data[written]⟩])
    (writes : s'.writes = s.writes) :
    Accounts writer s s' ((data.take written).map (⟨writer, port, ·⟩))
      ((data.take (written + 1)).map (⟨writer, port, ·⟩)) := by
  refine .inl ⟨_, rfl, out, writes, ?_⟩
  rw [← List.take_append_getElem more, List.map_append]
  rfl

/-- A write that has no byte left returns. -/
theorem Accounts.finished {w : Write} (out : s'.out = s.out) (writes : s'.writes = s.writes ++ [w])
    (full : w.returned = w.data.length) (sent : w.sent = begun) :
    Accounts writer s s' begun [] := by
  refine .inr ⟨out, [w], writes, ?_, fun w' hw' => .inr ?_⟩
  · rw [List.append_nil, List.flatMap_singleton, sent]
  · rw [List.mem_singleton.mp hw']
    exact full

/-- The bytes of the writes that have returned, and those of the one that is going on. -/
theorem Accounts.out (h : Accounts writer s s' begun begun')
    (whole : s.out = s.writes.flatMap Write.sent ++ begun) :
    s'.out = s'.writes.flatMap Write.sent ++ begun' := by
  rcases h with ⟨byte, _, hout, hwrites, rfl⟩ | ⟨hout, more, hwrites, hmore, _⟩
  · rw [hout, hwrites, whole, List.append_assoc]
  · rw [hout, hwrites, whole, List.flatMap_append, List.append_assoc, hmore]

/-- The writes that returned have sent all or nothing, also when one more has. -/
theorem Accounts.returned (h : Accounts writer s s' begun begun')
    (all : ∀ w ∈ s.writes, w.returned = 0 ∨ w.returned = w.data.length) :
    ∀ w ∈ s'.writes, w.returned = 0 ∨ w.returned = w.data.length := by
  rcases h with ⟨_, _, _, hwrites, _⟩ | ⟨_, more, hwrites, _, hmore⟩
  · rw [hwrites]
    exact all
  · rw [hwrites]
    exact List.forall_mem_append.mpr ⟨all, hmore⟩

/-- What it sends is the writer's. -/
theorem Accounts.more (h : Accounts writer s s' begun begun') :
    ∃ more, s'.out = s.out ++ more ∧ ∀ byte ∈ more, byte.writer = writer := by
  rcases h with ⟨byte, hwriter, hout, _⟩ | ⟨hout, _⟩
  · exact ⟨[byte], hout, fun b hb => (congrArg _ (List.mem_singleton.mp hb)).trans hwriter⟩
  · exact ⟨[], hout.trans (List.append_nil _).symm, fun _ h => nomatch h⟩

/-- The bytes that the application has sent. -/
def ofApplication (out : List Sent) : List UInt8 :=
  (out.filter (·.writer = .application)).map Sent.byte

/-- The application sends at most what it owes. -/
def Repays (s s' : Output) : Prop :=
  ∃ paid, ofApplication s'.out = ofApplication s.out ++ paid ∧ paid ++ s'.app.owed <+: s.app.owed

/-- A step that sends nothing for the application, and owes no more, repays. -/
theorem Repays.of_same (out : ofApplication s'.out = ofApplication s.out)
    (owed : s'.app.owed <+: s.app.owed) : Repays s s' :=
  ⟨[], out.trans (List.append_nil _).symm, owed⟩

/-- What is repaid in two stretches. -/
theorem Repays.trans {s'' : Output} (h : Repays s s') (h' : Repays s' s'') : Repays s s'' := by
  obtain ⟨paid, hout, howed⟩ := h
  obtain ⟨paid', hout', howed'⟩ := h'
  refine ⟨paid ++ paid', ?_, ?_⟩
  · rw [hout', hout, List.append_assoc]
  · rw [List.append_assoc]
    exact ((List.prefix_append_right_inj paid).mpr howed').trans howed

/-- What the runtime sends is not of the application. -/
theorem Accounts.runtime (h : Accounts .runtime s s' begun begun') :
    ofApplication s'.out = ofApplication s.out := by
  obtain ⟨more, hout, hmore⟩ := h.more
  have hnone : more.filter (·.writer = .application) = [] := by
    refine List.filter_eq_nil_iff.mpr fun byte hbyte happlication => ?_
    have := (hmore byte hbyte).symm.trans (of_decide_eq_true happlication)
    cases this
  unfold ofApplication
  rw [hout, List.filter_append, hnone, List.append_nil]

/-! ## The steps -/

/-- What a step of the application's call does. -/
structure Turned (s s' : Output) : Prop where
  service : ∃ busy, s'.service = { s.service with apiBusy := busy }
  busy : s.service.apiBusy = s.app.holds → s'.service.apiBusy = s'.app.holds
  handler : s'.handler = s.handler
  inside : s.app ≠ .outside
  accounts : Accounts .application s s' s.app.begun s'.app.begun
  repays : s.service.consoleSuppressed = true → Repays s s'

/-- A call that sends nothing is refused. -/
theorem turned_refuse {device : Option (Fin 2)} {data : List UInt8} (inside : s.app ≠ .outside)
    (free : s.app.holds = 0) (begun : s.app.begun = []) : Turned s (s.refuse device data) where
  service := ⟨_, rfl⟩
  busy := fun h => h.trans free
  handler := rfl
  inside := inside
  accounts := .refused rfl rfl (fun w hw => by
    obtain ⟨_, _, rfl⟩ := List.mem_map.mp hw
    rfl) begun.symm
  repays := fun _ => .of_same rfl List.nil_prefix

/-- A turn of the handler is one of these steps. -/
theorem turn_turned {link : Link} (step : s.turn nodes link = some s') : Turned s s' := by
  unfold turn at step
  split at step
  · cases step
  · rename_i happ
    cases step
    refine ⟨⟨_, rfl⟩, fun h => ?_, rfl, happ ▸ nofun, .none rfl rfl (happ ▸ rfl), fun _ =>
      .of_same rfl List.nil_prefix⟩
    show s.service.apiBusy - 1 = 0
    rw [h, happ]
    rfl
  · rename_i happ
    cases step
    exact turned_refuse (happ ▸ nofun) (happ ▸ rfl) (happ ▸ rfl)
  · rename_i happ
    split at step
    · cases step
      exact turned_refuse (happ ▸ nofun) (happ ▸ rfl) (happ ▸ rfl)
    · cases step
      refine ⟨⟨_, rfl⟩, fun h => ?_, rfl, happ ▸ nofun, .none rfl rfl (happ ▸ rfl), fun _ =>
        .of_same rfl List.nil_prefix⟩
      show s.service.apiBusy + 1 = 1
      rw [h, happ]
      rfl
  · rename_i happ
    have hone : s.service.apiBusy = s.app.holds → s.service.apiBusy - 1 = 0 := fun h => by
      rw [h, happ]
      rfl
    split at step
    · cases step
      refine ⟨⟨_, rfl⟩, hone, rfl, happ ▸ nofun, .refused rfl rfl (fun w hw => ?_) (happ ▸ rfl),
        fun _ => .of_same rfl List.nil_prefix⟩
      obtain ⟨_, _, rfl⟩ := List.mem_map.mp hw
      rfl
    · cases step
      exact ⟨⟨_, rfl⟩, hone, rfl, happ ▸ nofun, .none rfl rfl (happ ▸ rfl), fun _ =>
        .of_same rfl List.nil_prefix⟩
  · rename_i happ
    cases step
    exact turned_refuse (happ ▸ nofun) (happ ▸ rfl) (happ ▸ rfl)
  · rename_i happ
    split at step
    · cases step
      exact turned_refuse (happ ▸ nofun) (happ ▸ rfl) (happ ▸ rfl)
    · rename_i hopen
      cases step
      exact ⟨⟨_, rfl⟩, fun h => h.trans (happ ▸ rfl), rfl, happ ▸ nofun,
        .none rfl rfl (happ ▸ rfl), fun hsuppressed => absurd (.inr hsuppressed) hopen⟩
  · rename_i happ
    split at step
    · cases step
      exact turned_refuse (happ ▸ nofun) (happ ▸ rfl) (happ ▸ rfl)
    · split at step
      · cases step
        exact ⟨⟨_, rfl⟩, fun h => h.trans (happ ▸ rfl), rfl, happ ▸ nofun,
          .none rfl rfl (happ ▸ rfl), fun _ => .of_same rfl (happ ▸ List.prefix_rfl)⟩
      · cases step
        exact turned_refuse (happ ▸ nofun) (happ ▸ rfl) (happ ▸ rfl)
  · rename_i happ
    cases step
    refine ⟨⟨_, rfl⟩, fun h => ?_, rfl, happ ▸ nofun, .none rfl rfl (happ ▸ rfl), fun _ =>
      .of_same rfl (happ ▸ List.prefix_rfl)⟩
    show s.service.apiBusy + 1 = 1
    rw [h, happ]
    rfl
  · rename_i device data written within happ
    split at step
    · rename_i more
      cases step
      refine ⟨⟨_, rfl⟩, fun h => h.trans (happ ▸ rfl), rfl, happ ▸ nofun, ?_,
        fun _ => ⟨[data[written]], ?_, ?_⟩⟩
      · rw [happ]
        exact .byte more rfl rfl
      · unfold ofApplication
        rw [List.filter_append, List.map_append]
        rfl
      · rw [happ]
        exact ⟨[], (List.append_nil _).trans (List.drop_eq_getElem_cons more).symm⟩
    · rename_i done
      cases step
      refine ⟨⟨_, rfl⟩, fun h => ?_, rfl, happ ▸ nofun,
        .finished rfl rfl (Nat.le_antisymm within (Nat.not_lt.mp done)) ?_, fun _ =>
        .of_same rfl List.nil_prefix⟩
      · show s.service.apiBusy - 1 = 0
        rw [h, happ]
        rfl
      · rw [happ]
        rfl

/-- A call that does not hold `native_api_busy` has sent nothing. -/
theorem begun_of_free {pc : OutputPc} (h : pc.holds = 0) : pc.begun = [] := by
  cases pc with
  | sending => cases h
  | _ => rfl

/-- Without the port the handler has sent nothing. -/
theorem begun_of_waiting {pc : UpgradePc} (h : pc.upgrading = false) : pc.begun = [] := by
  cases pc with
  | writing => cases h
  | _ => rfl

/-- Behind a write there is none begun. -/
theorem AfterWrite.begun_pc (next : AfterWrite) : next.pc.begun = [] := by
  cases next <;> rfl

/-- One write behind the other: at most one is going on, and a write that has returned has sent all
of its bytes or none. -/
structure Whole (s : Output) : Prop where
  busy : s.service.apiBusy = s.app.holds
  alone : s.handler.upgrading = true → s.service.threadId = false
  thread : s.service.threadId = false → s.app = .outside
  out : s.out = s.writes.flatMap Write.sent ++ (s.app.begun ++ s.handler.begun)
  returned : ∀ w ∈ s.writes, w.returned = 0 ∨ w.returned = w.data.length

/-- A step that sends nothing and ends no write. -/
theorem Whole.of_quiet (h : Whole s) (out : s'.out = s.out) (writes : s'.writes = s.writes)
    (app : s'.app = s.app ∨ (s'.app = .outside ∧ s.app.holds = 0))
    (handler : s'.handler.begun = s.handler.begun) (busy : s'.service.apiBusy = s'.app.holds)
    (alone : s'.handler.upgrading = true → s'.service.threadId = false)
    (thread : s'.service.threadId = false → s'.app = .outside) : Whole s' where
  busy := busy
  alone := alone
  thread := thread
  out := by
    have hbegun : s'.app.begun = s.app.begun := by
      rcases app with happ | ⟨happ, hfree⟩
      · rw [happ]
      · rw [happ, begun_of_free hfree]
        rfl
    rw [out, writes, hbegun, handler]
    exact h.out
  returned := by
    rw [writes]
    exact h.returned

/-- While the upgrade has the port, the application is not there. -/
theorem Whole.outside (h : Whole s) (upgrading : s.handler.upgrading = true) : s.app = .outside :=
  h.thread (h.alone upgrading)

/-- A step of the handler that has the port. -/
theorem Whole.of_upgrading (h : Whole s) (upgrading : s.handler.upgrading = true)
    (accounts : Accounts .runtime s s' s.handler.begun s'.handler.begun) (app : s'.app = .outside)
    (busy : s'.service.apiBusy = 0)
    (alone : s'.handler.upgrading = true → s'.service.threadId = false) : Whole s' where
  busy := by
    rw [busy, app]
    rfl
  alone := alone
  thread := fun _ => app
  out := by
    rw [app]
    refine accounts.out ?_
    rw [h.out, h.outside upgrading]
    rfl
  returned := accounts.returned h.returned

/-- While an upgrade is on, no call of the application is in the runtime. -/
theorem Whole.free (h : Whole s) (upgrading : s.handler.upgrading = true) :
    s.service.apiBusy = 0 := by
  rw [h.busy, h.outside upgrading]
  rfl

/-- A step of the handler that leaves the native service as it is. -/
theorem Whole.of_handler (h : Whole s) (upgrading : s.handler.upgrading = true)
    (accounts : Accounts .runtime s s' s.handler.begun s'.handler.begun) (app : s'.app = s.app)
    (service : s'.service = s.service) : Whole s' :=
  h.of_upgrading upgrading accounts (app.trans (h.outside upgrading))
    (service ▸ h.free upgrading) fun _ => service ▸ h.alone upgrading

/-- A turn of the handler keeps the account. -/
theorem Whole.turn (h : Whole s) (turned : Turned s s') : Whole s' := by
  obtain ⟨busy, hservice⟩ := turned.service
  have alive : s.service.threadId = true := by
    cases hthread : s.service.threadId with
    | true => rfl
    | false => exact absurd (h.thread hthread) turned.inside
  have waiting : s.handler.upgrading = false := by
    cases hhandler : s.handler.upgrading with
    | false => rfl
    | true => exact absurd (h.alone hhandler) (alive ▸ nofun)
  have alive' : s'.service.threadId = true := by
    rw [hservice]
    exact alive
  refine ⟨turned.busy h.busy, fun upgrading => ?_, fun dead => ?_, ?_, turned.accounts.returned
    h.returned⟩
  · rw [turned.handler, waiting] at upgrading
    cases upgrading
  · rw [alive'] at dead
    cases dead
  · rw [turned.handler, begun_of_waiting waiting, List.append_nil]
    refine turned.accounts.out ?_
    rw [h.out, begun_of_waiting waiting, List.append_nil]

/-- The application is where it was, or it begins a call. -/
theorem call_spec {pc : OutputPc} (step : s.call pc = some s') :
    s.service.threadId = true ∧ s.app = .outside ∧ s' = { s with app := pc } := by
  unfold call at step
  split at step
  · rename_i alive
    split at step
    · rename_i happ
      cases step
      exact ⟨alive, happ, rfl⟩
    · cases step
  · cases step

/-- The handler begins a write, or is refused. -/
theorem begin_accounts {data : List UInt8} {prepared : Bool} {link : Link} {next : AfterWrite}
    (begun : s.handler.begun = []) :
    Accounts .runtime s (s.begin nodes data prepared link next) s.handler.begun
      (s.begin nodes data prepared link next).handler.begun := by
  unfold begin
  split
  · exact .none rfl rfl begun.symm
  · refine .refused rfl rfl (fun w hw => ?_) ((AfterWrite.begun_pc next).trans begun.symm)
    rw [List.mem_singleton.mp hw]

/-- Beginning a write is the handler's own affair. -/
theorem begin_frame {data : List UInt8} {prepared : Bool} {link : Link} {next : AfterWrite} :
    (s.begin nodes data prepared link next).app = s.app ∧
      (s.begin nodes data prepared link next).service = s.service := by
  unfold begin
  split <;> exact ⟨rfl, rfl⟩

/-- The handler's write goes on. -/
theorem next_accounts (step : s.next = some s') : s.handler.upgrading = true ∧ s'.app = s.app ∧
    s'.service = s.service ∧ Accounts .runtime s s' s.handler.begun s'.handler.begun := by
  unfold next at step
  split at step
  · rename_i data written within next hhandler
    split at step
    · rename_i more
      cases step
      refine ⟨hhandler ▸ rfl, rfl, rfl, ?_⟩
      rw [hhandler]
      exact .byte more rfl rfl
    · rename_i done
      cases step
      refine ⟨hhandler ▸ rfl, rfl, rfl, ?_⟩
      rw [AfterWrite.begun_pc]
      refine .finished rfl rfl (Nat.le_antisymm within (Nat.not_lt.mp done)) ?_
      rw [hhandler]
      rfl
  · cases step

/-- A start does not touch `native_api_busy`, and stops no thread. -/
theorem start_frame (loaded : Loaded) (v : Service) :
    (nativeServiceStart loaded v).1.apiBusy = v.apiBusy ∧
      ((nativeServiceStart loaded v).1.threadId = false → v.threadId = false) := by
  rcases start_cases loaded v with h | ⟨dead, _, ⟨e, h⟩ | h⟩
  · rw [h]
    exact ⟨rfl, id⟩
  · rw [h]
    exact ⟨rfl, fun _ => dead⟩
  · rw [h]
    exact ⟨rfl, fun _ => dead⟩

/-- The application is resumed. -/
theorem Whole.resumed (h : Whole s) (upgrading : s.handler.upgrading = true)
    (begun : s.handler.begun = []) (loaded : Loaded) : Whole (s.resumed loaded) :=
  h.of_upgrading upgrading (.none rfl rfl begun.symm) rfl (start_frame loaded _).1 nofun

/-- The stop announces itself. -/
theorem Whole.dfu (h : Whole s) (idle : s.handler = .idle) : Whole s.dfu := by
  refine h.of_quiet rfl rfl (.inl rfl) ?_ h.busy (fun upgrading => ?_) h.thread
  · unfold Output.dfu
    dsimp only
    rw [idle]
    split <;> rfl
  · unfold Output.dfu at upgrading
    dsimp only at upgrading
    split at upgrading
    · assumption
    · cases upgrading

/-- A turn of its loop ends it only when no call holds `native_api_busy`. -/
theorem Whole.poll (h : Whole s) (waiting : s.handler = .waiting) (expired : Bool) :
    Whole (s.poll expired) := by
  by_cases hfree : s.service.apiBusy = 0
  · have hstop : s.poll expired = { s with
        service := nativeServiceForceStopThread s.service
        app := .outside
        handler := .stopped } := by
      unfold Output.poll handoffLoop
      rw [if_pos hfree]
    rw [hstop]
    exact h.of_quiet rfl rfl (.inr ⟨rfl, h.busy.symm.trans hfree⟩) (waiting ▸ rfl) hfree
      (fun _ => rfl) fun _ => rfl
  · cases expired with
    | false =>
      have hwait : s.poll false = s := by
        unfold Output.poll handoffLoop
        rw [if_neg hfree, if_neg Bool.false_ne_true]
        rfl
      rw [hwait]
      exact h
    | true =>
      have hgive : s.poll true = { s with
          service := nativeServiceSuppressConsole false s.service
          handler := .idle } := by
        unfold Output.poll handoffLoop
        rw [if_neg hfree, if_pos rfl]
      rw [hgive]
      exact h.of_quiet rfl rfl (.inl rfl) (waiting ▸ rfl) h.busy
        (fun upgrading => absurd upgrading Bool.false_ne_true) h.thread

/-- Every step keeps it. -/
theorem Whole.step (h : Whole s) {e : OutputEvent} (step : Step nodes s e s') : Whole s' := by
  cases e with
  | callPost =>
    obtain ⟨alive, happ, rfl⟩ := call_spec step
    have alive : s.service.threadId = true := alive
    have happ : s.app = .outside := happ
    refine ⟨?_, h.alone, fun dead => ?_, ?_, h.returned⟩
    · show s.service.apiBusy + 1 = 1
      rw [h.busy, happ]
      rfl
    · have dead : s.service.threadId = false := dead
      rw [alive] at dead
      cases dead
    · exact h.out.trans (happ ▸ rfl)
  | callVprintf port fmt =>
    obtain ⟨alive, happ, rfl⟩ := call_spec step
    refine ⟨h.busy.trans (happ ▸ rfl), h.alone, fun dead => ?_, h.out.trans (happ ▸ rfl),
      h.returned⟩
    exact absurd dead (alive ▸ nofun)
  | callWrite port data =>
    obtain ⟨alive, happ, rfl⟩ := call_spec step
    refine ⟨h.busy.trans (happ ▸ rfl), h.alone, fun dead => ?_, h.out.trans (happ ▸ rfl),
      h.returned⟩
    exact absurd dead (alive ▸ nofun)
  | turn link => exact h.turn (turn_turned step)
  | dfu =>
    unfold Step Output.step at step
    dsimp only at step
    split at step
    · rename_i idle
      cases step
      exact h.dfu idle
    · cases step
  | poll expired =>
    unfold Step Output.step at step
    dsimp only at step
    split at step
    · rename_i waiting
      cases step
      exact h.poll waiting expired
    · cases step
  | ready prepared link loaded =>
    unfold Step Output.step at step
    dsimp only at step
    split at step
    · rename_i stopped
      have hbegin : Whole (s.begin nodes readyLine prepared link .receiving) :=
        h.of_handler (stopped ▸ rfl) (begin_accounts (stopped ▸ rfl)) begin_frame.1 begin_frame.2
      split at step
      · cases step
        exact hbegin
      · rename_i refused
        cases step
        have hhandler : (s.begin nodes readyLine prepared link .receiving).handler =
            .receiving := by
          unfold begin
          rw [if_neg refused]
          rfl
        have hresumed := hbegin.resumed (hhandler ▸ rfl) (hhandler ▸ rfl) loaded
        exact ⟨hresumed.busy, hresumed.alone, hresumed.thread, hresumed.out, hresumed.returned⟩
    · cases step
  | put byte prepared link =>
    unfold Step Output.step at step
    dsimp only at step
    split at step
    · rename_i receiving
      cases step
      exact h.of_handler (receiving ▸ rfl) (begin_accounts (receiving ▸ rfl)) begin_frame.1
        begin_frame.2
    · cases step
  | received ret =>
    unfold Step Output.step at step
    dsimp only at step
    split at step
    · rename_i receiving
      cases step
      exact h.of_handler (receiving ▸ rfl) (.none rfl rfl (receiving ▸ rfl)) rfl rfl
    · cases step
  | close prepared link =>
    unfold Step Output.step at step
    dsimp only at step
    split at step
    iterate 2
      rename_i received
      cases step
      exact h.of_handler (received ▸ rfl) (begin_accounts (received ▸ rfl)) begin_frame.1
        begin_frame.2
    cases step
  | next =>
    obtain ⟨upgrading, happ, hservice, accounts⟩ := next_accounts step
    exact h.of_handler upgrading accounts happ hservice
  | resume loaded =>
    unfold Step Output.step at step
    dsimp only at step
    split at step
    · rename_i closing
      cases step
      exact h.resumed (closing ▸ rfl) (closing ▸ rfl) loaded
    · cases step
  | start loaded =>
    unfold Step Output.step at step
    dsimp only at step
    split at step
    · rename_i idle
      cases step
      obtain ⟨hbusy, hthread⟩ := start_frame loaded s.service
      refine h.of_quiet rfl rfl (.inl rfl) rfl (hbusy.trans h.busy) (fun upgrading => ?_)
        fun dead => h.thread (hthread dead)
      rw [idle] at upgrading
      cases upgrading
    · cases step

/-- The account stands in every reachable state. -/
theorem reachable_whole (h : Run.Reachable Start (Step nodes) s) : Whole s := by
  refine Run.Reachable.invariant (I := Whole) ?_ (fun _ _ _ hs step => Whole.step hs step) h
  rintro s ⟨hservice, happ, hhandler, hout, hwrites⟩
  refine ⟨?_, fun upgrading => ?_, fun _ => happ, ?_, ?_⟩
  · rw [hservice, happ]
    rfl
  · rw [hhandler] at upgrading
    cases upgrading
  · rw [hout, hwrites, happ, hhandler]
    rfl
  · rw [hwrites]
    exact nofun

/-! ## Runs -/

/-- A step of the handler, or of the runtime, sends for the handler only. -/
structure Handled (s s' : Output) : Prop where
  accounts : ∃ begun begun', Accounts .runtime s s' begun begun'
  app : s'.app.owed = s.app.owed ∨ s'.app = .outside

/-- A step that sends nothing and ends no write. -/
theorem handled_of_quiet (out : s'.out = s.out) (writes : s'.writes = s.writes)
    (app : s'.app.owed = s.app.owed ∨ s'.app = .outside) : Handled s s' :=
  ⟨⟨[], [], .none out writes rfl⟩, app⟩

/-- The handler begins a write. -/
theorem handled_begin {data : List UInt8} {prepared : Bool} {link : Link} {next : AfterWrite}
    (begun : s.handler.begun = []) : Handled s (s.begin nodes data prepared link next) :=
  ⟨⟨_, _, begin_accounts begun⟩, .inl (congrArg _ begin_frame.1)⟩

/-- A step is one of the application's call, or of the handler. -/
theorem step_cases {e : OutputEvent} (step : Step nodes s e s') : Turned s s' ∨ Handled s s' := by
  cases e with
  | callPost =>
    obtain ⟨_, happ, rfl⟩ := call_spec step
    have happ : s.app = .outside := happ
    exact .inr (handled_of_quiet rfl rfl (.inl (happ ▸ rfl)))
  | callVprintf port fmt =>
    obtain ⟨_, happ, rfl⟩ := call_spec step
    exact .inr (handled_of_quiet rfl rfl (.inl (happ ▸ rfl)))
  | callWrite port data =>
    obtain ⟨_, happ, rfl⟩ := call_spec step
    exact .inr (handled_of_quiet rfl rfl (.inl (happ ▸ rfl)))
  | turn link => exact .inl (turn_turned step)
  | next =>
    obtain ⟨_, happ, _, accounts⟩ := next_accounts step
    exact .inr ⟨⟨_, _, accounts⟩, .inl (congrArg _ happ)⟩
  | poll expired =>
    unfold Step Output.step at step
    dsimp only at step
    split at step
    · cases step
      unfold poll
      split
      · exact .inr (handled_of_quiet rfl rfl (.inl rfl))
      · exact .inr (handled_of_quiet rfl rfl (.inr rfl))
      · exact .inr (handled_of_quiet rfl rfl (.inl rfl))
    · cases step
  | ready prepared link loaded =>
    unfold Step Output.step at step
    dsimp only at step
    split at step
    · rename_i stopped
      have hbegin := @handled_begin nodes s readyLine prepared link .receiving (stopped ▸ rfl)
      split at step <;> cases step
      · exact .inr hbegin
      · exact .inr ⟨hbegin.accounts, .inr rfl⟩
    · cases step
  | _ =>
    unfold Step Output.step at step
    dsimp only at step
    split at step
    all_goals first
      | cases step; done
      | rename_i hhandler
        cases step
        first
          | exact .inr (handled_begin (hhandler ▸ rfl))
          | exact .inr (handled_of_quiet rfl rfl (.inl rfl))
          | exact .inr (handled_of_quiet rfl rfl (.inr rfl))

/-- A step while the upgrade has the port: the application is stopped and not yet resumed. -/
def UpgradeStep (nodes : SerialNodes) (s : Output) (e : OutputEvent) (s' : Output) : Prop :=
  Step nodes s e s' ∧ s.handler.upgrading = true

/-- A step while the console is suppressed. -/
def SuppressedStep (nodes : SerialNodes) (s : Output) (e : OutputEvent) (s' : Output) : Prop :=
  Step nodes s e s' ∧ s.service.consoleSuppressed = true

/-- While an upgrade is on, only the runtime sends. -/
theorem Whole.sends (h : Whole s) {e : OutputEvent} (step : UpgradeStep nodes s e s') :
    ∃ more, s'.out = s.out ++ more ∧ ∀ byte ∈ more, byte.writer = .runtime := by
  obtain ⟨step, upgrading⟩ := step
  rcases step_cases step with turned | ⟨⟨_, _, accounts⟩, _⟩
  · exact absurd (h.outside upgrading) turned.inside
  · exact accounts.more

/-- While the console is suppressed, what the application sends was owed. -/
theorem repays_of_step {e : OutputEvent} (step : SuppressedStep nodes s e s') : Repays s s' := by
  obtain ⟨step, suppressed⟩ := step
  rcases step_cases step with turned | ⟨⟨_, _, accounts⟩, howed | happ⟩
  · exact turned.repays suppressed
  · exact .of_same accounts.runtime (howed ▸ List.prefix_rfl)
  · exact .of_same accounts.runtime (happ ▸ List.nil_prefix)

/-- In every run, what goes out is one whole write behind the other: the bytes of the writes that
have returned, each of which has sent all it was given or nothing, and of at most one that is going
on. No write of the application is cut short by the stop, and while the upgrade has the port, only
the runtime sends. From when the console is suppressed, the application sends at most the rest of
the write that it is in. -/
theorem whole_writes (h : Run.Reachable Start (Step nodes) s) :
    (∃ begun, s.out = s.writes.flatMap Write.sent ++ begun ∧
      (begun = s.app.begun ∧ s.handler.begun = [] ∨ begun = s.handler.begun ∧ s.app.begun = [])) ∧
      (∀ w ∈ s.writes, w.returned = 0 ∨ w.returned = w.data.length) ∧
      (∀ es s', Run.Trace (UpgradeStep nodes) s es s' →
        ∃ more, s'.out = s.out ++ more ∧ ∀ byte ∈ more, byte.writer = .runtime) ∧
      ∀ es s', Run.Trace (SuppressedStep nodes) s es s' →
        ∃ paid, ofApplication s'.out = ofApplication s.out ++ paid ∧ paid <+: s.app.owed := by
  have whole := reachable_whole h
  refine ⟨⟨_, whole.out, ?_⟩, whole.returned, fun es s' run => ?_, fun es s' run => ?_⟩
  · cases hhandler : s.handler.upgrading with
    | true =>
      rw [whole.outside hhandler]
      exact .inr ⟨rfl, rfl⟩
    | false =>
      rw [begun_of_waiting hhandler, List.append_nil]
      exact .inl ⟨rfl, rfl⟩
  · clear h
    induction run with
    | nil => exact ⟨[], (List.append_nil _).symm, nofun⟩
    | cons step _ ih =>
      obtain ⟨more, hout, hmore⟩ := whole.sends step
      obtain ⟨more', hout', hmore'⟩ := ih (whole.step step.1)
      exact ⟨more ++ more', by rw [hout', hout, List.append_assoc],
        List.forall_mem_append.mpr ⟨hmore, hmore'⟩⟩
  · have repays : Repays s s' := by
      clear h whole
      induction run with
      | nil => exact .of_same rfl List.prefix_rfl
      | cons step _ ih => exact (repays_of_step step).trans ih
    obtain ⟨paid, hout, howed⟩ := repays
    exact ⟨paid, hout, (List.prefix_append _ _).trans howed⟩

/-- A board with one port, which is no CDC port. -/
def oneUart : SerialNodes := ⟨false, fun _ => false⟩

/-- A device that takes bytes. -/
def upLink : Link := ⟨true, none⟩

/-- The application is stopped for an upgrade while it writes two bytes. -/
def untilStopped : List OutputEvent :=
  [.start ⟨.ok, 0x08020080, fun _ => 0⟩, .callWrite 0 (some [0x68, 0x69]), .turn upLink,
    .turn upLink, .turn upLink, .turn upLink, .dfu, .poll false, .turn upLink, .turn upLink,
    .poll false]

/-- The state after boot. -/
def boot : Output := ⟨.boot, .outside, .idle, [], []⟩

/-- The write returns with its two bytes, which go out first, and then only what the runtime
writes. -/
theorem stop_behind_write : ∃ s, Run.Reachable Start (Step oneUart) s ∧
    s.out = [⟨.application, 0, 0x68⟩, ⟨.application, 0, 0x69⟩] ∧
    s.writes.map Write.data = [[0x68, 0x69]] ∧
    (∀ w ∈ s.writes, w.returned = 0 ∨ w.returned = w.data.length) ∧
    ∀ es s', Run.Trace (UpgradeStep oneUart) s es s' →
      ∃ more, s'.out = s.out ++ more ∧ ∀ byte ∈ more, byte.writer = .runtime := by
  obtain ⟨s, run, htest⟩ := Run.exists_of_follow (Output.step oneUart) (fun _ _ => true)
    untilStopped boot (fun s => s.handler.upgrading &&
      decide (s.out = [⟨.application, 0, 0x68⟩, ⟨.application, 0, 0x69⟩] ∧
        s.writes.map Write.data = [[0x68, 0x69]])) (by decide +kernel)
  obtain ⟨_, hgone⟩ := Bool.and_eq_true_iff.mp htest
  obtain ⟨hout, hwrites⟩ := of_decide_eq_true hgone
  have reach : Run.Reachable Start (Step oneUart) s :=
    .follow (fun _ _ _ _ h => h) (.start ⟨rfl, rfl, rfl, rfl, rfl⟩) run
  obtain ⟨_, hreturned, honly, _⟩ := whole_writes reach
  exact ⟨s, reach, hout, hwrites, hreturned, honly⟩

end Output

end Rtbus.Cli
