import Rtbus.Cli.Framing
import Rtbus.Cli.Grammar
import Rtbus.Serial.Splitting

/-!
# Two streams on one port

Port 0 carries the input of the application and the command line. A line that starts with `@` is a
control line and goes to the command line; every other byte goes to the ring of the port, from which
the application reads.

`Port0` is the receive interrupt, the ring, the application's reads and the command line with its
handlers, which take their steps in any order. A handler may use the port itself: that of `DFU`
closes the input of the command line, flushes the ring and reads from it.

A host that sends lines of data and commands (`Item`), one behind the other, but none whose handler
uses the port, gets through with both: the application reads the data, byte by byte, and the handlers
of the commands are called with their arguments, each stream in its order and nothing of one in the
other (`port0_multiplexed`). Both need room on their way, in the ring and in `rtbus_cli_input_msgq`.
-/

namespace Rtbus.Cli

open Rtbus.Serial Rtbus.Lines

/-- What a host sends: a line of data, or a command that leaves the port alone, with the byte that
ends it. A command that ends in a CR and an LF is one that ends in the CR, and an empty line of
data. -/
inductive Item {H : Type} (commands : List (Command H)) (usesPort : H → Bool)
  | data (line : List UInt8) (terminator : UInt8) (inside : ∀ byte ∈ line, endsLine byte = false)
      (ends : endsLine terminator = true) (other : line.head? ≠ some at_)
  | command (line : List UInt8) (handler : H) (argument : List UInt8) (terminator : UInt8)
      (inside : ∀ byte ∈ line, endsLine byte = false) (ends : endsLine terminator = true)
      (accepts : Accepts commands line handler argument) (noZero : 0 ∉ argument)
      (quiet : usesPort handler = false)

namespace Item

variable {H : Type} {commands : List (Command H)} {usesPort : H → Bool}

/-- The line and the byte that ends it. -/
def ended : Item commands usesPort → List UInt8 × UInt8
  | data line terminator .. => (line, terminator)
  | command line _ _ terminator .. => (line, terminator)

/-- The bytes on the port. -/
def bytes (item : Item commands usesPort) : List UInt8 := item.ended.1 ++ [item.ended.2]

/-- What is for the application. -/
def forApplication : Item commands usesPort → List UInt8
  | data line terminator .. => line ++ [terminator]
  | command .. => []

/-- The call of a handler that is asked for. -/
def calls : Item commands usesPort → List (H × List UInt8)
  | data .. => []
  | command _ handler argument .. => [(handler, argument)]

end Item

/-- Port 0 with the command line. `handling` is the line that was dispatched last, until its handler
returns. `taken` is history, what the application has read. -/
structure Port0 (n : Nat) where
  input : Input
  port : SerialPort n
  handling : Option (List UInt8)
  taken : List UInt8

/-- A step of the command line or its interrupt, a call of `rtbus_runtime_serial_read` for the
application, with what `uart_poll_in` would yield, a step of a handler that uses the port, with what
it makes of `rtbus_cli_input_enabled` and of the port, or its return. -/
inductive Port0Event (n : Nat)
  | input (e : InputEvent)
  | read (pollIn : List UInt8) (size : Nat)
  | handler (inputEnabled : Bool) (port : SerialPort n)
  | returned

namespace Port0

variable {n : Nat} {c c' : Port0 n}

/-- The ring after a step of the interrupt. -/
def ringAfter (c : Port0 n) : InputEvent → SerialPort n
  | .receive byte =>
    if (c.input.router.routePort0Byte byte).forward then c.port.rxPut byte else c.port
  | _ => c.port

section Step

variable {H : Type} (commands : List (Command H)) (usesPort : H → Bool)

/-- An event happens. The task of the command line goes on when the handler has returned. -/
def step : Port0Event n → Port0 n → Option (Port0 n)
  | .input e, c =>
    if e = .turn ∧ c.handling.isSome then none
    else (Input.step e c.input).map fun input => { c with
      input := input
      port := c.ringAfter e
      handling := c.handling.or (input.lines.drop c.input.lines.length).head? }
  | .read pollIn size, c =>
    if ¬ c.port.hasDev ∨ ¬ c.port.prepared ∨ size = 0 ∨ ¬ c.port.deviceIsReady then some c
    else
      let (bytes, port) := c.port.readLoop pollIn size
      some { c with port := port, taken := c.taken ++ bytes }
  | .handler inputEnabled port, c =>
    match c.handling.bind (dispatchLine commands) with
    | some call =>
      if usesPort call.1 then
        some { c with input := { c.input with inputEnabled := inputEnabled }, port := port }
      else none
    | none => none
  | .returned, c => c.handling.map fun _ => { c with handling := none }

/-- A step in which every byte finds room, in the ring and in the queue of the command line. -/
def RoomyStep (c : Port0 n) (e : Port0Event n) (c' : Port0 n) : Prop :=
  step commands usesPort e c = some c' ∧ (e = .input .submit → c.input.msgq.length < inputQueueDepth) ∧
    ∀ byte, e = .input (.receive byte) →
      (c.input.router.routePort0Byte byte).forward = true → ¬ c.port.rxFull

/-- The handlers that were called, with their arguments. -/
def calls (c : Port0 n) : List (H × List UInt8) :=
  c.input.lines.flatMap fun line => (dispatchLine commands line).toList

end Step

/-- At boot. -/
def Start (c : Port0 n) : Prop :=
  c.input = .boot ∧ c.port.queue = [] ∧ c.handling = none ∧ c.taken = []

end Port0

/-! ## How the items are split -/

section Items

variable {H : Type} {commands : List (Command H)} {usesPort : H → Bool}

theorem Item.inside (item : Item commands usesPort) :
    (∀ byte ∈ item.ended.1, endsLine byte = false) ∧ endsLine item.ended.2 = true := by
  cases item with
  | data line terminator inside ends other => exact ⟨inside, ends⟩
  | command line handler argument terminator inside ends accepts noZero quiet => exact ⟨inside, ends⟩

/-- The lines of what the host sends. -/
theorem complete_items (items : List (Item commands usesPort)) :
    complete endsLine (items.flatMap Item.bytes) = items.map fun item => item.ended.1 := by
  have hsplit := @split_terminated _ endsLine (items.map Item.ended) fun line hline => by
    obtain ⟨item, _, rfl⟩ := List.mem_map.mp hline
    exact item.inside
  rw [List.flatMap_map, List.map_map] at hsplit
  exact congrArg Prod.fst hsplit

/-- A command is a control line. -/
theorem isControl_of_accepts {line argument : List UInt8} {handler : H}
    (h : Accepts commands line handler argument) : isControl line = true := by
  obtain ⟨hlength, hmatches⟩ := h
  refine isControl_iff.mpr ⟨?_, hlength⟩
  cases hmatches <;> rfl

/-- The control lines of what the host sends make the calls of its commands. -/
theorem calls_items (named : WellNamed commands) (items : List (Item commands usesPort)) :
    ((controlLines (items.flatMap Item.bytes)).flatMap fun line =>
      (dispatchLine commands line).toList) = items.flatMap Item.calls := by
  unfold controlLines
  rw [complete_items]
  induction items with
  | nil => rfl
  | cons item items ih =>
    rw [List.map_cons, List.flatMap_cons, ← ih]
    cases item with
    | data line terminator inside ends other =>
      have hdata : ¬ isControl line = true := fun hcontrol => other (isControl_iff.mp hcontrol).1
      exact congrArg _ (List.filter_cons_of_neg hdata)
    | command line handler argument terminator inside ends accepts noZero quiet =>
      have hcall : (dispatchLine commands line).toList = [(handler, argument)] := by
        rw [dispatch_of_matches named accepts.2, cString_eq_self noZero]
        rfl
      rw [show Item.calls (.command line handler argument terminator inside ends accepts noZero quiet) =
        (dispatchLine commands line).toList from hcall.symm]
      exact (congrArg _ (List.filter_cons_of_pos (isControl_of_accepts accepts))).trans
        List.flatMap_cons

/-- A control line of what the host sends calls no handler that uses the port. -/
theorem quiet_of_control (named : WellNamed commands) {items : List (Item commands usesPort)}
    {line : List UInt8} (control : line ∈ controlLines (items.flatMap Item.bytes))
    {call : H × List UInt8} (hcall : dispatchLine commands line = some call) :
    usesPort call.1 = false := by
  obtain ⟨hline, hcontrol⟩ := List.mem_filter.mp control
  rw [complete_items] at hline
  obtain ⟨item, _, rfl⟩ := List.mem_map.mp hline
  cases item with
  | data line terminator inside ends other =>
    exact absurd (isControl_iff.mp hcontrol).1 other
  | command line handler argument terminator inside ends accepts noZero quiet =>
    have hcall' := dispatch_of_matches named accepts.2
    rw [show (Item.command line handler argument terminator inside ends accepts noZero quiet :
      Item commands usesPort).ended.1 = line from rfl] at hcall
    rw [hcall'] at hcall
    cases hcall
    exact quiet

/-- A line that is not a control line is passed on, with its end. -/
theorem forwarded_line {lineStart : Bool} {line : List UInt8} {terminator : UInt8}
    (inside : ∀ byte ∈ line, endsLine byte = false) (ends : endsLine terminator = true)
    (other : lineStart = true → line.head? ≠ some at_) (more : List UInt8) :
    (Router.outsideLine lineStart).forwarded (line ++ terminator :: more) =
      line ++ terminator :: (Router.outsideLine true).forwarded more := by
  have hterminator : isTerminator terminator = true := ends
  induction line generalizing lineStart with
  | nil =>
    have hne : terminator ≠ at_ := by
      rintro rfl
      cases ends
    simp only [List.nil_append, Router.forwarded]
    rw [Router.route_outside fun h => hne h.2, hterminator]
    rfl
  | cons byte line ih =>
    have hbyte : isTerminator byte = false := inside byte List.mem_cons_self
    simp only [List.cons_append, Router.forwarded]
    rw [Router.route_outside fun h => other h.1 (congrArg some h.2), hbyte]
    exact congrArg (byte :: ·) (ih (fun b hb => inside b (List.mem_cons_of_mem _ hb))
      fun h => absurd h Bool.false_ne_true)

/-- The router passes on what is for the application. -/
theorem forwarded_items (items : List (Item commands usesPort)) :
    Router.init.forwarded (items.flatMap Item.bytes) = items.flatMap Item.forApplication := by
  show (Router.outsideLine true).forwarded _ = _
  induction items with
  | nil => rfl
  | cons item items ih =>
    rw [List.flatMap_cons, List.flatMap_cons, ← ih]
    cases item with
    | data line terminator inside ends other =>
      show (Router.outsideLine true).forwarded (line ++ [terminator] ++ _) =
        line ++ [terminator] ++ _
      rw [List.append_assoc, List.append_assoc]
      exact forwarded_line inside ends (fun _ => other) _
    | command line handler argument terminator inside ends accepts noZero quiet =>
      obtain ⟨text, rfl⟩ : ∃ text, line = at_ :: text :=
        List.head?_eq_some_iff.mp (isControl_iff.mp (isControl_of_accepts accepts)).1
      show (Router.outsideLine true).forwarded (at_ :: text ++ [terminator] ++ _) = _
      rw [List.append_assoc]
      exact (Router.ended_line (fun byte hbyte => inside byte (List.mem_cons_of_mem _ hbyte)) ends
        _).1

end Items

namespace Port0

variable {n : Nat} {c c' : Port0 n}

/-! ## Runs -/

/-- Both streams are on their way: the router has seen what was received, the control lines go to
the command line, one of which may be handled, and the application has read what is not in the ring
any more. -/
structure Split (c : Port0 n) : Prop where
  framed : ∃ todo, Framed c.input todo
  handling : ∀ line ∈ c.handling, line ∈ c.input.lines
  router : c.input.router = Router.init.after c.input.received
  ring : c.taken ++ c.port.queue = Router.init.forwarded c.input.received

theorem after_append (r : Router) (xs ys : List UInt8) :
    r.after (xs ++ ys) = (r.after xs).after ys := by
  induction xs generalizing r with
  | nil => rfl
  | cons x xs ih => exact ih _

/-- A byte that is received goes one way. -/
theorem Split.receive (h : c.Split) {byte : UInt8} {input : Input}
    (step : c.input.receive byte = some input)
    (room : (c.input.router.routePort0Byte byte).forward = true → ¬ c.port.rxFull) :
    (∃ todo, Framed input todo) ∧ input.router = Router.init.after input.received ∧
      c.taken ++ (c.ringAfter (.receive byte)).queue = Router.init.forwarded input.received := by
  obtain ⟨todo, framed⟩ := h.framed
  refine ⟨framed.receive step, ?_, ?_⟩
  all_goals
    unfold Input.receive at step
    split at step <;> cases step
    dsimp only
  · rw [after_append, ← h.router]
    rfl
  · rw [Router.forwarded_append, ← h.router, ← h.ring]
    unfold ringAfter
    simp only [Router.forwarded]
    split
    · rename_i hforward
      rw [SerialPort.queue_rxPut_of_room _ _ (room hforward), List.append_assoc]
    · rw [List.append_nil]

/-- Of the steps of the command line only the interrupt looks at the port, and what was dispatched
stays dispatched. -/
theorem input_frame {s s' : Input} {e : InputEvent} (step : Input.step e s = some s') :
    s.lines <+: s'.lines ∧
      ((∀ byte, e ≠ .receive byte) → s'.router = s.router ∧ s'.received = s.received) := by
  cases e with
  | receive byte =>
    have step : s.receive byte = some s' := step
    unfold Input.receive at step
    split at step <;> cases step
    exact ⟨List.prefix_rfl, fun other => absurd rfl (other byte)⟩
  | submit =>
    have step : s.submit = some s' := step
    unfold Input.submit at step
    split at step
    · dsimp only at step
      split at step
      · cases step
        exact ⟨List.prefix_rfl, fun _ => ⟨rfl, rfl⟩⟩
      · split at step <;> cases step <;> exact ⟨List.prefix_rfl, fun _ => ⟨rfl, rfl⟩⟩
    · cases step
  | signal =>
    have step : s.signal = some s' := step
    unfold Input.signal at step
    split at step <;> cases step
    rw [submitWork_frame]
    exact ⟨List.prefix_rfl, fun _ => ⟨rfl, rfl⟩⟩
  | work =>
    have step : s.runWork = some s' := step
    unfold Input.runWork at step
    split at step <;> cases step
    exact ⟨List.prefix_rfl, fun _ => ⟨rfl, rfl⟩⟩
  | run =>
    have step : s.run = some s' := step
    unfold Input.run at step
    split at step <;> cases step
    exact ⟨List.prefix_rfl, fun _ => ⟨rfl, rfl⟩⟩
  | turn =>
    have step : s.turn = some s' := step
    unfold Input.turn at step
    split at step <;> cases step
    · refine ⟨?_, fun _ => ?_⟩
      · unfold Input.rtbusCliProcessByte Input.rtbusCliDispatchLine
        split
        · split
          · exact List.prefix_rfl
          · exact List.prefix_append _ _
        · split <;> exact List.prefix_rfl
      · rw [processByte_frame]
        exact ⟨rfl, rfl⟩
    · exact ⟨List.prefix_rfl, fun _ => ⟨rfl, rfl⟩⟩
    · exact ⟨List.prefix_rfl, fun _ => ⟨rfl, rfl⟩⟩
    · exact ⟨List.prefix_rfl, fun _ => ⟨rfl, rfl⟩⟩
    · rw [submitWork_frame]
      exact ⟨List.prefix_rfl, fun _ => ⟨rfl, rfl⟩⟩

/-- What was received stays received. -/
theorem received_prefix {s s' : Input} {e : InputEvent} (step : Input.step e s = some s') :
    s.received <+: s'.received := by
  by_cases hreceive : ∃ byte, e = .receive byte
  · obtain ⟨byte, rfl⟩ := hreceive
    have step : s.receive byte = some s' := step
    unfold Input.receive at step
    split at step <;> cases step
    exact List.prefix_append _ _
  · have hsame := ((input_frame step).2 fun byte he => hreceive ⟨byte, he⟩).2
    exact ⟨[], by rw [hsame, List.append_nil]⟩

section Steps

variable {H : Type} {commands : List (Command H)} {usesPort : H → Bool}

/-- A step of the command line or its interrupt. -/
theorem Split.input (h : c.Split) {e : InputEvent}
    (step : RoomyStep commands usesPort c (.input e) c') : c'.Split := by
  obtain ⟨step, queueRoom, ringRoom⟩ := step
  unfold Port0.step at step
  dsimp only at step
  split at step
  · cases step
  obtain ⟨input, hinput, rfl⟩ := Option.map_eq_some_iff.mp step
  have handling : ∀ line ∈ c.handling.or (input.lines.drop c.input.lines.length).head?,
      line ∈ input.lines := by
    intro line hline
    rcases Option.or_eq_some_iff.mp hline with hold | ⟨_, hnew⟩
    · exact (input_frame hinput).1.subset (h.handling line hold)
    · exact List.mem_of_mem_drop (List.mem_of_mem_head? hnew)
  by_cases hreceive : ∃ byte, e = .receive byte
  · obtain ⟨byte, rfl⟩ := hreceive
    obtain ⟨framed, router, ring⟩ := h.receive hinput (ringRoom byte rfl)
    exact ⟨framed, handling, router, ring⟩
  · have other : ∀ byte, e ≠ .receive byte := fun byte he => hreceive ⟨byte, he⟩
    obtain ⟨hrouter, hreceived⟩ := (input_frame hinput).2 other
    have hport : c.ringAfter e = c.port := by
      cases e with
      | receive byte => exact absurd rfl (other byte)
      | _ => rfl
    obtain ⟨todo, framed⟩ := h.framed
    refine ⟨framed.step ⟨hinput, fun he => queueRoom (congrArg _ he)⟩, handling, ?_, ?_⟩
    · exact (hrouter.trans h.router).trans (congrArg _ hreceived.symm)
    · show c.taken ++ (c.ringAfter e).queue = Router.init.forwarded input.received
      rw [hport, hreceived]
      exact h.ring

/-- The application reads from the front of the ring. -/
theorem Split.read (h : c.Split) {pollIn : List UInt8} {size : Nat}
    (step : Port0.step commands usesPort (.read pollIn size) c = some c') : c'.Split := by
  unfold Port0.step at step
  dsimp only at step
  split at step
  · cases step
    exact h
  · rename_i hup
    cases step
    have hprepared : c.port.prepared = true :=
      not_not.mp fun hprepared => hup (.inr (.inl hprepared))
    refine ⟨h.framed, h.handling, h.router, ?_⟩
    rw [List.append_assoc,
      Service.readLoop_queue c.port pollIn size (c.port.rxReady_of_prepared hprepared)]
    exact h.ring

/-- No handler that runs uses the port, while the host sends nothing else than these items. -/
theorem Split.quiet (h : c.Split) (named : WellNamed commands)
    {items : List (Item commands usesPort)} (sent : c.input.received <+: items.flatMap Item.bytes)
    {inputEnabled : Bool} {port : SerialPort n} :
    Port0.step commands usesPort (.handler inputEnabled port) c = none := by
  obtain ⟨todo, framed⟩ := h.framed
  unfold Port0.step
  dsimp only
  cases hcall : c.handling.bind (dispatchLine commands) with
  | none => rfl
  | some call =>
    obtain ⟨line, hline, hdispatch⟩ := Option.bind_eq_some_iff.mp hcall
    have hreceived : line ∈ controlLines c.input.received := by
      rw [framed.lines]
      exact List.mem_append_left _ (h.handling line hline)
    obtain ⟨more, hmore⟩ := sent
    have hcontrol : line ∈ controlLines (items.flatMap Item.bytes) := by
      rw [← hmore]
      exact ((complete_append c.input.received more).filter isControl).subset hreceived
    dsimp only
    rw [quiet_of_control named hcontrol hdispatch]
    rfl

theorem Split.step (h : c.Split) (named : WellNamed commands)
    {items : List (Item commands usesPort)} (sent : c.input.received <+: items.flatMap Item.bytes)
    {e : Port0Event n} (step : RoomyStep commands usesPort c e c') : c'.Split := by
  cases e with
  | input e => exact h.input step
  | read pollIn size => exact h.read step.1
  | handler inputEnabled port =>
    have hstep := step.1
    rw [h.quiet named sent] at hstep
    cases hstep
  | returned =>
    obtain ⟨line, _, rfl⟩ := Option.map_eq_some_iff.mp step.1
    exact ⟨h.framed, nofun, h.router, h.ring⟩

/-- No step takes back what was received. -/
theorem step_received {e : Port0Event n} (step : Port0.step commands usesPort e c = some c') :
    c.input.received <+: c'.input.received := by
  cases e with
  | input e =>
    unfold Port0.step at step
    dsimp only at step
    split at step
    · cases step
    obtain ⟨input, hinput, rfl⟩ := Option.map_eq_some_iff.mp step
    exact received_prefix hinput
  | read pollIn size =>
    unfold Port0.step at step
    dsimp only at step
    split at step <;> cases step <;> exact List.prefix_rfl
  | handler inputEnabled port =>
    unfold Port0.step at step
    dsimp only at step
    split at step
    · split at step <;> cases step
      exact List.prefix_rfl
    · cases step
  | returned =>
    obtain ⟨line, _, rfl⟩ := Option.map_eq_some_iff.mp step
    exact List.prefix_rfl

/-- The invariant holds as long as the host sends these items. -/
theorem reachable_split (named : WellNamed commands) {items : List (Item commands usesPort)}
    (h : Run.Reachable Start (RoomyStep commands usesPort) c)
    (sent : c.input.received <+: items.flatMap Item.bytes) : c.Split := by
  refine Run.Reachable.invariant
    (I := fun c : Port0 n => c.input.received <+: items.flatMap Item.bytes → c.Split) ?_
    (fun c e c' hs hstep hsent => ?_) h sent
  · rintro c ⟨hinput, hqueue, hhandling, htaken⟩ -
    refine ⟨⟨[], ?_⟩, ?_, ?_, ?_⟩
    · rw [hinput]
      exact ⟨routerAt_init, rfl, rfl, rfl, List.not_mem_nil⟩
    · rw [hhandling]
      exact nofun
    · rw [hinput]
      rfl
    · rw [hinput, hqueue, htaken]
      rfl
  · have hbefore := (step_received hstep.1).trans hsent
    exact (hs hbefore).step named hbefore hstep

end Steps

/-- In every run in which bytes find room, while a host sends lines of data and commands whose
handlers do not use the port: the application reads of the data what has come so far, in order, and
the handlers that are called are those of the commands, in order; once everything is received, it has
read or can read exactly the data, and once that is submitted and taken from the queue too, exactly
the commands were called. -/
theorem port0_multiplexed {H : Type} {commands : List (Command H)} {usesPort : H → Bool}
    (named : WellNamed commands) (items : List (Item commands usesPort))
    (h : Run.Reachable Start (RoomyStep commands usesPort) c)
    (sent : c.input.received <+: items.flatMap Item.bytes) :
    c.taken ++ c.port.queue <+: items.flatMap Item.forApplication ∧
      c.calls commands <+: items.flatMap Item.calls ∧
      (c.input.received = items.flatMap Item.bytes →
        c.taken ++ c.port.queue = items.flatMap Item.forApplication ∧
        (c.input.submitting = [] → c.input.msgq = [] →
          c.calls commands = items.flatMap Item.calls)) := by
  obtain ⟨⟨todo, framed⟩, _, _, hring⟩ := reachable_split named h sent
  have hcalls : ∀ more, c.input.received ++ more = items.flatMap Item.bytes →
      c.calls commands <+: items.flatMap Item.calls := by
    intro more hmore
    have hlines : c.input.lines <+: controlLines (items.flatMap Item.bytes) := by
      rw [← hmore]
      exact (framed.lines ▸ List.prefix_append _ _).trans
        ((complete_append c.input.received more).filter isControl)
    obtain ⟨rest, hrest⟩ := hlines
    unfold calls
    rw [← calls_items named, ← hrest, List.flatMap_append]
    exact List.prefix_append _ _
  obtain ⟨more, hmore⟩ := sent
  refine ⟨?_, hcalls more hmore, fun hall => ⟨?_, fun hsubmitting hmsgq => ?_⟩⟩
  · rw [hring, ← forwarded_items, ← hmore, Router.forwarded_append]
    exact List.prefix_append _ _
  · rw [hring, hall, forwarded_items]
  · have hbytes := framed.bytes
    rw [hmsgq, hsubmitting, List.append_nil, List.append_nil] at hbytes
    have hlines := framed.lines
    rw [eq_nil_of_frame framed.line hbytes, List.append_nil, hall] at hlines
    unfold calls
    rw [← hlines, calls_items named]

section Checks

variable {H : Type} {commands : List (Command H)} {usesPort : H → Bool}

/-- Whether the bytes of a step find room. -/
def roomyStep (c : Port0 n) : Port0Event n → Bool
  | .input (.receive byte) =>
    !(c.input.router.routePort0Byte byte).forward ||
      decide (SerialPort.nextIndex c.port.rxHead ≠ c.port.rxTail)
  | .input e => roomy c.input e
  | _ => true

theorem roomyStep_sound {e : Port0Event n} (check : c.roomyStep e = true)
    (step : Port0.step commands usesPort e c = some c') : RoomyStep commands usesPort c e c' := by
  refine ⟨step, ?_, ?_⟩
  · rintro rfl
    exact of_decide_eq_true check
  · rintro byte rfl hforward
    rcases Bool.or_eq_true_iff.mp check with hdropped | hroom
    · rw [hforward] at hdropped
      cases hdropped
    · exact of_decide_eq_true hroom

end Checks

/-- The handlers of `rtbus_cli.c`. -/
inductive CliHandler
  | test
  | dfu
  | reboot

/-- Only that of `DFU` uses port 0. -/
def CliHandler.usesPort : CliHandler → Bool
  | dfu => true
  | _ => false

/-- `"TEST"`, `"DFU"` and `"REBOOT"`. -/
def cliCommands : List (Command CliHandler) :=
  [⟨some [0x54, 0x45, 0x53, 0x54], some .test⟩, ⟨some [0x44, 0x46, 0x55], some .dfu⟩,
    ⟨some [0x52, 0x45, 0x42, 0x4f, 0x4f, 0x54], some .reboot⟩]

theorem wellNamed_cliCommands : WellNamed cliCommands where
  text := by
    intro command hcommand name hname
    simp only [cliCommands, List.mem_cons, List.not_mem_nil, or_false] at hcommand
    rcases hcommand with rfl | rfl | rfl <;> cases hname <;> decide
  distinct := by
    unfold cliCommands
    simp only [List.pairwise_cons, List.mem_cons, List.not_mem_nil, or_false, forall_eq_or_imp,
      forall_eq, IsEmpty.forall_iff, implies_true, List.Pairwise.nil, and_true]
    refine ⟨⟨?_, ?_⟩, ?_⟩ <;> rintro name ⟨⟩ <;> decide

/-- The line `hi`, and behind it the command that reboots. -/
def hiThenReboot : List (Item cliCommands CliHandler.usesPort) :=
  [.data [0x68, 0x69] lf (by decide +kernel) rfl (by decide),
    .command rebootLine .reboot [] cr (by decide +kernel) rfl
      ⟨by decide, .plain (.tail _ (.tail _ (.head _))) rfl rfl⟩ List.not_mem_nil rfl]

/-- The interrupt receives both, the application reads, and the task takes the line. -/
def bothServed : List (Port0Event 16) :=
  (hiThenReboot.flatMap Item.bytes).map (.input ∘ .receive) ++
    (List.replicate 14 [.input .submit, .input .signal]).flatten ++ [.read [] 8, .input .work,
      .input .run] ++ List.replicate 14 (.input .turn) ++ [.returned] ++
      List.replicate 3 (.input .turn)

/-- Both get through. -/
theorem hi_and_reboot : ∃ c : Port0 16,
    Run.Reachable Start (RoomyStep cliCommands CliHandler.usesPort) c ∧
    c.taken ++ c.port.queue = [0x68, 0x69, lf] ∧ c.calls cliCommands = [(.reboot, [])] := by
  obtain ⟨c, run, htest⟩ := Run.exists_of_follow (Port0.step cliCommands CliHandler.usesPort)
    (roomyStep (n := 16)) bothServed
    ⟨.boot, ⟨0, 0, fun _ => 0, true, true, true, true, true, fun _ => rfl⟩, none, []⟩
    (fun c => decide (c.input.received = hiThenReboot.flatMap Item.bytes) &&
      (c.input.submitting.isEmpty && c.input.msgq.isEmpty)) (by decide +kernel)
  simp only [Bool.and_eq_true, decide_eq_true_eq, List.isEmpty_iff] at htest
  obtain ⟨hreceived, hsubmitting, hmsgq⟩ := htest
  have reach : Run.Reachable Start (RoomyStep cliCommands CliHandler.usesPort) c :=
    .follow (fun _ _ _ => roomyStep_sound) (.start ⟨rfl, rfl, rfl, rfl⟩) run
  have hboth := (port0_multiplexed wellNamed_cliCommands hiThenReboot reach
    (hreceived ▸ List.prefix_refl _)).2.2 hreceived
  exact ⟨c, reach, hboth.1, hboth.2 hsubmitting hmsgq⟩

end Port0

end Rtbus.Cli
