import Rtbus.Base.Lines
import Rtbus.Base.Run
import Rtbus.Serial.Router

/-!
# Input of the command line

A control line is collected by the receive interrupt of port 0 and then submitted byte by byte to
`rtbus_cli_input_msgq`. The first byte submits a work item, which posts `RTBUS_CLI_INPUT`; the CLI
task reads the queue until it is empty and collects the line again, up to its line feed.

The queue is shorter than a line may be, and a byte that finds it full is dropped. `Input` cuts the
interrupt, the work item and the task into steps, in any order. If every byte finds room, the lines
that are dispatched are the control lines that were received.
-/

namespace Rtbus.Cli

open Rtbus.Serial Rtbus.Lines

/-- The number of bytes of `rtbus_cli_input_msgq`. -/
def inputQueueDepth : Nat := 128

/-- Where `rtbus_cli_process_input` is: not running, in its loop, before it clears
`rtbus_cli_input_pending`, or before it looks at the queue again. -/
inductive InputPc
  | idle
  | reading
  | clearing
  | checking
  deriving DecidableEq

/-- The command line with its router. `submitting` are the bytes that the receive interrupt still has
to submit, `signalling` says that it has put a byte and not yet looked at `pending`, `work` that the
work item is submitted, and `posted` counts the `RTBUS_CLI_INPUT` events. History are `received`,
the bytes received on port 0, and `lines`, the lines dispatched. -/
structure Input where
  router : Router
  submitting : List UInt8
  signalling : Bool
  inputEnabled : Bool
  msgq : List UInt8
  pending : Bool
  work : Bool
  posted : Nat
  pc : InputPc
  line : List UInt8
  lines : List (List UInt8)
  received : List UInt8

/-- What may happen next: the interrupt receives, puts or signals a byte, the work item runs, the
task is dispatched, or it takes a step. -/
inductive InputEvent
  | receive (byte : UInt8)
  | submit
  | signal
  | work
  | run
  | turn
  deriving DecidableEq

namespace Input

variable (s : Input)

/-- `rtbus_cli_dispatch_line`, as far as the line goes. -/
def rtbusCliDispatchLine : Input :=
  if s.line = [] then s else { s with line := [], lines := s.lines ++ [s.line] }

/-- `rtbus_cli_process_byte`. -/
def rtbusCliProcessByte (byte : UInt8) : Input :=
  if byte = cr ∨ byte = lf then s.rtbusCliDispatchLine
  else if s.line.length ≥ cliLineMax - 1 then { s with line := [] }
  else { s with line := s.line ++ [byte] }

/-- A byte is received on port 0. -/
def receive (byte : UInt8) : Option Input :=
  if s.submitting = [] ∧ s.signalling = false then
    let routed := s.router.routePort0Byte byte
    some { s with
      router := routed.router
      submitting := routed.submitted
      received := s.received ++ [byte] }
  else none

/-- `rtbus_cli_submit_byte` up to `k_msgq_put`. -/
def submit : Option Input :=
  match s.signalling, s.submitting with
  | false, byte :: rest =>
    let s := { s with submitting := rest }
    if s.inputEnabled = false then some s
    else if s.msgq.length ≥ inputQueueDepth then some s
    else some { s with msgq := s.msgq ++ [byte], signalling := true }
  | _, _ => none

/-- `atomic_cas(&rtbus_cli_input_pending, 0, 1)` and `k_work_submit`. -/
def submitWork : Input := if s.pending then s else { s with pending := true, work := true }

/-- The rest of `rtbus_cli_submit_byte`. -/
def signal : Option Input :=
  if s.signalling then some { s.submitWork with signalling := false } else none

/-- `rtbus_cli_input_work_handler`, with `rtbus_post` succeeding. -/
def runWork : Option Input :=
  if s.work then some { s with work := false, posted := s.posted + 1 } else none

/-- `rtbus_cli_process` gets `RTBUS_CLI_INPUT`. -/
def run : Option Input :=
  if s.pc = .idle ∧ s.posted ≠ 0 then some { s with posted := s.posted - 1, pc := .reading }
  else none

/-- The next step of `rtbus_cli_process_input`. -/
def turn : Option Input :=
  match s.pc, s.msgq with
  | .idle, _ => none
  | .reading, byte :: rest => some ({ s with msgq := rest }.rtbusCliProcessByte byte)
  | .reading, [] => some { s with pc := .clearing }
  | .clearing, _ => some { s with pending := false, pc := .checking }
  | .checking, [] => some { s with pc := .idle }
  | .checking, _ :: _ => some { s.submitWork with pc := .idle }

/-- What an event does, if it can happen. -/
def step : InputEvent → Input → Option Input
  | .receive byte, s => s.receive byte
  | .submit, s => s.submit
  | .signal, s => s.signal
  | .work, s => s.runWork
  | .run, s => s.run
  | .turn, s => s.turn

/-- A step with an event. -/
def Step (s : Input) (e : InputEvent) (s' : Input) : Prop := step e s = some s'

/-- A step in which a byte, if one is submitted, finds room. -/
def RoomyStep (s : Input) (e : InputEvent) (s' : Input) : Prop :=
  Step s e s' ∧ (e = .submit → s.msgq.length < inputQueueDepth)

/-- The command line after boot. -/
def boot : Input :=
  { router := .init, submitting := [], signalling := false, inputEnabled := true, msgq := []
    pending := false, work := false, posted := 0, pc := .idle, line := [], lines := []
    received := [] }

end Input

/-- The bytes that end a line. -/
def endsLine (byte : UInt8) : Bool := byte = cr ∨ byte = lf

/-- A line for the command line: it starts with `@` and fits the line buffers. -/
def isControl (line : List UInt8) : Bool :=
  line.head? = some at_ ∧ line.length ≤ cliLineMax - 1

/-- The complete control lines of a stream. -/
def controlLines (stream : List UInt8) : List (List UInt8) :=
  (complete endsLine stream).filter isControl

theorem isControl_iff {line : List UInt8} :
    isControl line = true ↔ line.head? = some at_ ∧ line.length ≤ cliLineMax - 1 := by
  unfold isControl
  exact decide_eq_true_iff

theorem endsLine_iff {byte : UInt8} : endsLine byte = true ↔ byte = cr ∨ byte = lf := by
  unfold endsLine
  exact decide_eq_true_iff

theorem not_endsLine {byte : UInt8} (h : ¬ (byte = cr ∨ byte = lf)) : endsLine byte = false :=
  decide_eq_false h

/-- A control line has no end of a line in it, is not empty and fits. -/
theorem mem_controlLines {stream line : List UInt8} (h : line ∈ controlLines stream) :
    (∀ byte ∈ line, ¬ (byte = cr ∨ byte = lf)) ∧ line ≠ [] ∧ line.length ≤ cliLineMax - 1 := by
  obtain ⟨hline, hcontrol⟩ := List.mem_filter.mp h
  obtain ⟨hhead, hlength⟩ := isControl_iff.mp hcontrol
  refine ⟨fun byte hbyte => of_decide_eq_false ((no_end stream).1 line hline byte hbyte), ?_,
    hlength⟩
  rintro rfl
  cases hhead

/-! ## The router -/

/-- What the router knows of the line that is being received. -/
structure RouterAt (r : Router) (current : List UInt8) : Prop where
  start : r.controlActive = false → (r.port0LineStart = true ↔ current = [])
  active : r.controlActive = true ↔ current.head? = some at_
  line : r.controlActive = true → r.controlLine = current.take (cliLineMax - 1) ∧
    (r.controlOverflow = true ↔ cliLineMax - 1 < current.length)

theorem routerAt_init : RouterAt .init [] :=
  ⟨fun _ => ⟨fun _ => rfl, fun _ => rfl⟩, ⟨nofun, nofun⟩, nofun⟩

/-- A line that has ended adds itself to the control lines, if it is one. -/
theorem controlLines_of_end {stream : List UInt8} {byte : UInt8} (h : endsLine byte = true) :
    controlLines (stream ++ [byte]) =
      controlLines stream ++ [current endsLine stream].filter isControl := by
  unfold controlLines
  rw [complete_of_end h, List.filter_append]

theorem controlLines_of_other {stream : List UInt8} {byte : UInt8} (h : endsLine byte = false) :
    controlLines (stream ++ [byte]) = controlLines stream := by
  unfold controlLines
  rw [complete_of_other h]

/-- A byte on a control line. -/
theorem route_active {r : Router} {stream : List UInt8} (byte : UInt8)
    (h : RouterAt r (current endsLine stream)) (active : r.controlActive = true) :
    RouterAt (r.routePort0Byte byte).router (current endsLine (stream ++ [byte])) ∧
      ∃ new, controlLines (stream ++ [byte]) = controlLines stream ++ new ∧
        (r.routePort0Byte byte).submitted = frame lf new := by
  obtain ⟨hline, hoverflow⟩ := h.line active
  have hhead := h.active.mp active
  unfold Router.routePort0Byte
  rw [if_pos active]
  by_cases hbyte : byte = cr ∨ byte = lf
  · have hend := endsLine_iff.mpr hbyte
    rw [if_pos hbyte, current_of_end hend]
    refine ⟨⟨fun _ => ⟨fun _ => rfl, fun _ => rfl⟩, ⟨nofun, nofun⟩, nofun⟩, ?_⟩
    refine ⟨_, controlLines_of_end hend, ?_⟩
    show (if r.controlOverflow then [] else r.controlLine ++ [lf]) = _
    cases ho : r.controlOverflow with
    | true =>
      have hlong := hoverflow.mp ho
      have hno : isControl (current endsLine stream) = false := by
        apply Bool.eq_false_iff.mpr
        intro hcontrol
        exact Nat.not_le.mpr hlong (isControl_iff.mp hcontrol).2
      rw [List.filter_cons_of_neg (by rw [hno]; exact Bool.false_ne_true)]
      rfl
    | false =>
      have hshort : (current endsLine stream).length ≤ cliLineMax - 1 := by
        apply Nat.not_lt.mp
        intro hlong
        rw [hoverflow.mpr hlong] at ho
        cases ho
      rw [List.filter_cons_of_pos (isControl_iff.mpr ⟨hhead, hshort⟩), hline,
        List.take_of_length_le hshort, List.filter_nil, frame_cons]
      rfl
  · have hother := not_endsLine hbyte
    rw [if_neg hbyte, current_of_other hother, controlLines_of_other hother]
    have hhead' : (current endsLine stream ++ [byte]).head? = some at_ := by
      rw [List.head?_append, hhead]
      rfl
    have hlength : r.controlLine.length = min (cliLineMax - 1) (current endsLine stream).length := by
      rw [hline, List.length_take]
    refine ⟨?_, [], (List.append_nil _).symm, ?_⟩
    · split
      · rename_i hroom
        have hshort : (current endsLine stream).length < cliLineMax - 1 := by omega
        refine ⟨fun h => absurd (active.symm.trans h) nofun, ⟨fun _ => hhead', fun _ => active⟩,
          fun _ => ⟨?_, ?_⟩⟩
        · show r.controlLine ++ [byte] = _
          rw [hline, List.take_of_length_le (Nat.le_of_lt hshort), List.take_of_length_le]
          rw [List.length_append]
          exact hshort
        · show r.controlOverflow = true ↔ _
          rw [hoverflow, List.length_append]
          exact ⟨fun h => absurd h (by omega), fun h => absurd h (by simp; omega)⟩
      · rename_i hfull
        have hlong : cliLineMax - 1 ≤ (current endsLine stream).length := by omega
        refine ⟨fun h => absurd (active.symm.trans h) nofun, ⟨fun _ => hhead', fun _ => active⟩,
          fun _ => ⟨?_, ⟨fun _ => ?_, fun _ => rfl⟩⟩⟩
        · show r.controlLine = _
          rw [hline, List.take_append_of_le_length hlong]
        · rw [List.length_append]
          exact Nat.lt_succ_of_le hlong
    · split <;> rfl

/-- A byte outside of a control line. -/
theorem route_inactive {r : Router} {stream : List UInt8} (byte : UInt8)
    (h : RouterAt r (current endsLine stream)) (inactive : r.controlActive = false) :
    RouterAt (r.routePort0Byte byte).router (current endsLine (stream ++ [byte])) ∧
      ∃ new, controlLines (stream ++ [byte]) = controlLines stream ++ new ∧
        (r.routePort0Byte byte).submitted = frame lf new := by
  have hhead : (current endsLine stream).head? ≠ some at_ := by
    intro hhead
    rw [h.active.mpr hhead] at inactive
    cases inactive
  have hstart := h.start inactive
  unfold Router.routePort0Byte
  rw [inactive, if_neg Bool.false_ne_true]
  by_cases hat : r.port0LineStart = true ∧ byte = at_
  · obtain ⟨hline, rfl⟩ := hat
    rw [if_pos ⟨hline, rfl⟩, current_of_other (by decide), controlLines_of_other (by decide),
      hstart.mp hline]
    refine ⟨⟨nofun, ⟨fun _ => rfl, fun _ => rfl⟩, fun _ => ⟨rfl, ⟨nofun, ?_⟩⟩⟩, [],
      (List.append_nil _).symm, rfl⟩
    intro hlong
    exact absurd hlong (by decide)
  · rw [if_neg hat]
    by_cases hbyte : byte = cr ∨ byte = lf
    · have hend := endsLine_iff.mpr hbyte
      rw [current_of_end hend]
      refine ⟨⟨fun _ => ⟨fun _ => rfl, fun _ => decide_eq_true hbyte⟩,
        ⟨nofun, nofun⟩,
        nofun⟩, _, controlLines_of_end hend, ?_⟩
      rw [List.filter_cons_of_neg fun hcontrol => hhead (isControl_iff.mp hcontrol).1]
      rfl
    · have hother := not_endsLine hbyte
      rw [current_of_other hother, controlLines_of_other hother]
      refine ⟨⟨fun _ => ⟨fun h => absurd (of_decide_eq_true h) hbyte, fun h => ?_⟩,
        ⟨nofun, fun h => ?_⟩,
        nofun⟩, [], (List.append_nil _).symm, rfl⟩
      · exact absurd (List.append_eq_nil_iff.mp h).2 nofun
      · exfalso
        cases hcurrent : current endsLine stream with
        | nil =>
          rw [hcurrent] at h
          exact hat ⟨hstart.mpr hcurrent, Option.some.inj h⟩
        | cons first rest =>
          rw [hcurrent] at h hhead
          exact hhead h

/-- The router submits the control lines as they end. -/
theorem route_spec {r : Router} {stream : List UInt8} (byte : UInt8)
    (h : RouterAt r (current endsLine stream)) :
    RouterAt (r.routePort0Byte byte).router (current endsLine (stream ++ [byte])) ∧
      ∃ new, controlLines (stream ++ [byte]) = controlLines stream ++ new ∧
        (r.routePort0Byte byte).submitted = frame lf new := by
  cases active : r.controlActive with
  | true => exact route_active byte h active
  | false => exact route_inactive byte h active

end Rtbus.Cli
