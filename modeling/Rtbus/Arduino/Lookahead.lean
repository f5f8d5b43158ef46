import Rtbus.Arduino.Line

/-!
# The lookahead of the serial ports

A port of the core behaves like its line in every run (`World.Shows.run`): `-1` stands for an empty
hold and the values from 0 to 255 for a held byte, so that the test `peeked >= 0` is exact. A call
on one port changes nothing of the other but what the runtime does meanwhile. The results about the
core are those about lines.
-/

namespace Rtbus.Arduino

/-! ## The ports of the core are lines -/

namespace World

/-- The instance and the stream of a port are those of a line. -/
structure Shows (w : World) (port : Port) (l : Line) : Prop where
  peeked : w.peeked port = encode l.held
  stream : w.streams port.instancePort = l.stream

/-- The world with the line of a port replaced. -/
def setLine (w : World) (port : Port) (l : Line) : World :=
  (w.setPeeked port (encode l.held)).setStream port.instancePort l.stream

/-- A port whose line is set shows it. -/
theorem shows_setLine (w : World) (port : Port) (l : Line) : (w.setLine port l).Shows port l :=
  ⟨Function.update_self .., Function.update_self ..⟩

/-- Nothing changes for the other port. -/
theorem Shows.setLine_other {w : World} {port id : Port} {l : Line} (h : w.Shows id l)
    (ne : id ≠ port) (l' : Line) : (w.setLine port l').Shows id l := by
  have hport : id.instancePort ≠ port.instancePort := Port.instancePort_inj.not.mpr ne
  exact ⟨(Function.update_of_ne ne ..).trans h.peeked,
    (Function.update_of_ne hport ..).trans h.stream⟩

/-- The lines of both ports, with that of one port replaced. -/
theorem shows_update {w : World} {l : Port → Line} (h : ∀ id, w.Shows id (l id)) (port : Port)
    (l' : Line) (id : Port) : (w.setLine port l').Shows id (Function.update l port l' id) := by
  by_cases hid : id = port
  · subst hid
    rw [Function.update_self]
    exact w.shows_setLine id l'
  · rw [Function.update_of_ne hid]
    exact (h id).setLine_other hid l'

/-- Setting the line that a port shows changes nothing. -/
theorem Shows.setLine_self {w : World} {port : Port} {l : Line} (h : w.Shows port l) :
    w.setLine port l = w := by
  unfold setLine setStream setPeeked
  rw [← h.peeked, ← h.stream, Function.update_eq_self, Function.update_eq_self]

/-- A byte held is kept as its value. -/
theorem Shows.peeked_of_some {w : World} {port : Port} {l : Line} (h : w.Shows port l)
    {byte : UInt8} (held : l.held = some byte) : w.peeked port = byte.toNat := by
  rw [h.peeked, held]
  rfl

/-- With none held there is a negative number. -/
theorem Shows.peeked_of_none {w : World} {port : Port} {l : Line} (h : w.Shows port l)
    (held : l.held = none) : ¬ 0 ≤ w.peeked port := by
  rw [h.peeked]
  exact Int.not_le.mpr ((encode_neg_iff l.held).mpr held)

/-- A read of the runtime that finds nothing. -/
theorem serialRead_of_nil {w : World} {port : Fin 2} (h : (w.streams port).pending = []) :
    w.runtimeArduinoSerialRead port 1 = ([], w) := by
  unfold runtimeArduinoSerialRead rtbusSerialRead
  rw [h]
  rfl

/-- A read of the runtime takes the first byte that waits. -/
theorem serialRead_of_cons {w : World} {port : Fin 2} {byte : UInt8} {rest : List UInt8}
    (h : (w.streams port).pending = byte :: rest) :
    w.runtimeArduinoSerialRead port 1 = ([byte],
      w.setStream port { pending := rest, taken := (w.streams port).taken ++ [byte] }) := by
  have hneg : ¬ (byte.toNat : Int) < 0 := Int.not_lt.mpr (Int.natCast_nonneg _)
  unfold runtimeArduinoSerialRead rtbusSerialRead
  rw [h]
  dsimp only
  rw [if_neg hneg, ofInt_toNat]
  rfl

/-- `available` is looking ahead on the line. -/
theorem Shows.available {w : World} {port : Port} {l : Line} (h : w.Shows port l) :
    w.available port = (if l.fill.held.isSome then 1 else 0, w.setLine port l.fill) := by
  unfold World.available
  cases hheld : l.held with
  | some byte =>
    rw [if_pos (h.peeked_of_some hheld ▸ Int.natCast_nonneg _), Line.fill_of_held hheld,
      h.setLine_self, hheld]
    rfl
  | none =>
    rw [if_neg (h.peeked_of_none hheld)]
    cases hpending : l.stream.pending with
    | nil =>
      rw [serialRead_of_nil (h.stream ▸ hpending), Line.fill_of_nil hheld hpending, h.setLine_self,
        hheld]
      rfl
    | cons byte rest =>
      rw [serialRead_of_cons (h.stream ▸ hpending), Line.fill_of_cons hheld hpending, h.stream]
      rfl

/-- `peek` is looking ahead as well, and tells the byte. -/
theorem Shows.peek {w : World} {port : Port} {l : Line} (h : w.Shows port l) :
    w.peek port = (encode l.fill.held, w.setLine port l.fill) := by
  have hpeeked := (w.shows_setLine port l.fill).peeked
  unfold World.peek
  rw [h.available]
  dsimp only
  rw [hpeeked]
  cases l.fill.held with
  | none => rfl
  | some byte => rfl

/-- `read` is a read of the line. -/
theorem Shows.read {w : World} {port : Port} {l : Line} (h : w.Shows port l) :
    w.read port = (encode l.read.1, w.setLine port l.read.2) := by
  unfold World.read Line.read
  cases hheld : l.held with
  | some byte =>
    rw [if_pos (h.peeked_of_some hheld ▸ Int.natCast_nonneg _), Line.fill_of_held hheld, hheld,
      h.peeked_of_some hheld]
    have hstream : w.streams = Function.update w.streams port.instancePort l.stream := by
      rw [← h.stream, Function.update_eq_self]
    exact Prod.ext rfl (congrArg (World.mk _) hstream)
  | none =>
    rw [if_neg (h.peeked_of_none hheld)]
    cases hpending : l.stream.pending with
    | nil =>
      have hself : { l with held := none } = l := by rw [← hheld]
      rw [serialRead_of_nil (h.stream ▸ hpending), Line.fill_of_nil hheld hpending, hself,
        h.setLine_self, hheld]
      rfl
    | cons byte rest =>
      have hpeeked : w.peeked = Function.update w.peeked port (encode none) := by
        rw [← hheld, ← h.peeked, Function.update_eq_self]
      rw [serialRead_of_cons (h.stream ▸ hpending), Line.fill_of_cons hheld hpending, h.stream]
      exact Prod.ext rfl (congrArg (World.mk · _) hpeeked)

/-! ## Steps of the runtime -/

/-- What the runtime does meanwhile is the change of the line that it is on this port. -/
theorem Shows.runtimeStep {w : World} {port : Port} {l : Line} (h : w.Shows port l)
    (s : RuntimeStep) : (w.runtimeStep s).Shows port (l.changes (changesOn port [s])) := by
  unfold World.runtimeStep changesOn
  by_cases hport : s.port = port.instancePort
  · rw [List.filterMap_cons, if_pos hport]
    refine ⟨h.peeked, ?_⟩
    rw [hport, setStream_self, h.stream]
    rfl
  · rw [List.filterMap_cons, if_neg hport]
    exact ⟨h.peeked, (setStream_other w (Ne.symm hport) _).trans h.stream⟩

/-- So are any number of its steps. -/
theorem Shows.runtimeSteps {w : World} {port : Port} {l : Line} (h : w.Shows port l)
    (steps : List RuntimeStep) :
    (w.runtimeSteps steps).Shows port (l.changes (changesOn port steps)) := by
  induction steps generalizing w l with
  | nil => exact h
  | cons s steps ih =>
    rw [← List.singleton_append, changesOn_append, Line.changes_append]
    exact ih (h.runtimeStep s)

/-! ## Calls -/

/-- The loop of `readBytes` is the one of the line, step by step. -/
theorem Shows.readBytesLoop {w : World} {port : Port} {l : Line} (h : w.Shows port l)
    (during : List (List RuntimeStep)) (length : Nat) :
    (w.readBytesLoop port during length).1 =
        (l.readBytesLoop (during.map (changesOn port)) length).1 ∧
      (w.readBytesLoop port during length).2.Shows port
        (l.readBytesLoop (during.map (changesOn port)) length).2 := by
  induction length generalizing w l during with
  | zero =>
    refine ⟨rfl, ?_⟩
    show (w.runtimeSteps _).Shows port (l.changes _)
    rw [← changesOn_flatten]
    exact h.runtimeSteps during.flatten
  | succ length ih =>
    have hsteps := h.runtimeSteps (during.headD [])
    have hread := hsteps.read
    have hleft := shows_setLine (w.runtimeSteps (during.headD [])) port
      (l.changes (changesOn port (during.headD []))).read.2
    simp only [World.readBytesLoop, Line.readBytesLoop, headD_map, ← List.map_tail]
    rw [hread]
    dsimp only
    cases (l.changes (changesOn port (during.headD []))).read.1 with
    | none =>
      rw [if_pos ((encode_neg_iff none).mpr rfl), ← changesOn_flatten]
      exact ⟨rfl, hleft.runtimeSteps during.tail.flatten⟩
    | some byte =>
      obtain ⟨hbytes, hshows⟩ := ih hleft during.tail
      rw [if_neg ((encode_neg_iff _).not.mpr (Option.some_ne_none byte))]
      refine ⟨?_, hshows⟩
      dsimp only
      rw [hbytes]
      exact congrArg (· :: _) (ofInt_toNat byte)

/-- A `readBytes` on one port is to the other what the runtime does meanwhile. -/
theorem Shows.readBytesLoop_other {w : World} {port id : Port} {l : Line} (h : w.Shows id l)
    (ne : id ≠ port) {m : Line} (hm : w.Shows port m) (during : List (List RuntimeStep))
    (length : Nat) : (w.readBytesLoop port during length).2.Shows id
      (l.changes (changesOn id during.flatten)) := by
  induction length generalizing w l m during with
  | zero => exact h.runtimeSteps during.flatten
  | succ length ih =>
    have hread := (hm.runtimeSteps (during.headD [])).read
    have hleft := (h.runtimeSteps (during.headD [])).setLine_other ne
      (m.changes (changesOn port (during.headD []))).read.2
    have hmine := shows_setLine (w.runtimeSteps (during.headD [])) port
      (m.changes (changesOn port (during.headD []))).read.2
    rw [flatten_headD_tail during, changesOn_append, Line.changes_append]
    simp only [World.readBytesLoop]
    rw [hread]
    split
    · exact hleft.runtimeSteps during.tail.flatten
    · exact ih hleft hmine during.tail

/-- Every call of the class is the call of the line, with the same result. -/
theorem Shows.call {w : World} {port : Port} {l : Line} (h : w.Shows port l)
    (c : Call RuntimeStep) :
    (w.call port c).1 = (l.call (c.on port)).1 ∧
      (w.call port c).2.Shows port (l.call (c.on port)).2 := by
  cases c with
  | available =>
    have hdone := h.available
    simp only [World.call]
    rw [hdone]
    exact ⟨rfl, w.shows_setLine port _⟩
  | peek =>
    have hdone := h.peek
    simp only [World.call]
    rw [hdone]
    exact ⟨rfl, w.shows_setLine port _⟩
  | read =>
    have hdone := h.read
    simp only [World.call]
    rw [hdone]
    exact ⟨rfl, w.shows_setLine port _⟩
  | readBytes isNull length during =>
    simp only [World.call, World.readBytes, Call.on, Line.call]
    split
    · rw [← changesOn_flatten]
      exact ⟨rfl, h.runtimeSteps during.flatten⟩
    · obtain ⟨hbytes, hshows⟩ := h.readBytesLoop during length
      exact ⟨congrArg Answer.readBytes hbytes, hshows⟩

/-- A call on one port leaves the line of the other alone, but for what the runtime does meanwhile.
-/
theorem Shows.call_other {w : World} {port id : Port} {l : Line} (h : w.Shows id l)
    (ne : id ≠ port) {m : Line} (hm : w.Shows port m) (c : Call RuntimeStep) :
    (w.call port c).2.Shows id (l.changes (changesOn id c.steps)) := by
  cases c with
  | available =>
    show (w.available port).2.Shows id l
    rw [hm.available]
    exact h.setLine_other ne _
  | peek =>
    show (w.peek port).2.Shows id l
    rw [hm.peek]
    exact h.setLine_other ne _
  | read =>
    show (w.read port).2.Shows id l
    rw [hm.read]
    exact h.setLine_other ne _
  | readBytes isNull length during =>
    show (w.readBytes port isNull length during).2.Shows id _
    unfold World.readBytes
    split
    · exact h.runtimeSteps during.flatten
    · exact h.readBytesLoop_other ne hm during length

/-- In every run each port answers like its line and ends like it, whatever the events of the
other port are. -/
theorem Shows.run {w : World} {l : Port → Line} (h : ∀ port, w.Shows port (l port))
    (events : List Event) (port : Port) :
    answersOn port (w.run events).1 = ((l port).run (events.flatMap (Event.on port))).1 ∧
      (w.run events).2.Shows port ((l port).run (events.flatMap (Event.on port))).2 := by
  induction events generalizing w l with
  | nil => exact ⟨rfl, h port⟩
  | cons event rest ih =>
    rw [List.flatMap_cons]
    cases event with
    | call port' c =>
      have hnext (id : Port) : (w.call port' c).2.Shows id (if id = port'
          then ((l id).call (c.on id)).2 else (l id).changes (changesOn id c.steps)) := by
        split
        · rename_i hid
          rw [← hid]
          exact ((h id).call c).2
        · rename_i hid
          exact (h id).call_other hid (h port') c
      obtain ⟨hanswers, hshows⟩ := ih hnext
      by_cases hport : port' = port
      · subst hport
        rw [if_pos rfl] at hanswers hshows
        rw [Event.on, if_pos rfl]
        refine ⟨?_, hshows⟩
        simp only [World.run, answersOn, List.filterMap_cons, ↓reduceIte]
        exact congrArg₂ List.cons ((h port').call c).1 hanswers
      · rw [if_neg (Ne.symm hport)] at hanswers hshows
        rw [Event.on, if_neg hport, Line.run_changes]
        refine ⟨?_, hshows⟩
        simp only [World.run, answersOn, List.filterMap_cons, if_neg hport]
        exact hanswers
    | runtime s =>
      have hnext := ih (l := fun port => (l port).changes (changesOn port [s]))
        fun port => (h port).runtimeStep s
      rw [Event.on, Line.run_changes]
      exact hnext

/-! ## What the callers see -/

/-- The peeked byte of a port, if any. -/
def peekedByte (w : World) (port : Port) : List UInt8 :=
  if 0 ≤ w.peeked port then [UInt8.ofInt (w.peeked port)] else []

/-- The bytes that reads of the port return next if nothing more happens to its stream. -/
def upcoming (w : World) (port : Port) : List UInt8 :=
  w.peekedByte port ++ (w.streams port.instancePort).pending

/-- The byte of the class is the byte held. -/
theorem Shows.peekedByte {w : World} {port : Port} {l : Line} (h : w.Shows port l) :
    w.peekedByte port = l.held.toList := by
  unfold World.peekedByte
  cases hheld : l.held with
  | none => exact if_neg (h.peeked_of_none hheld)
  | some byte =>
    rw [h.peeked_of_some hheld, if_pos (Int.natCast_nonneg _), ofInt_toNat]
    rfl

/-- What is to be read next is the byte held, then what waits. -/
theorem Shows.upcoming {w : World} {port : Port} {l : Line} (h : w.Shows port l) :
    w.upcoming port = l.held.toList ++ l.stream.pending := by
  unfold World.upcoming
  rw [h.peekedByte, h.stream]

/-- At boot both ports show what waits for them. -/
theorem boot_shows (pending : Fin 2 → List UInt8) (port : Port) :
    (boot pending).Shows port (.boot (pending port.instancePort)) := ⟨rfl, rfl⟩

end World

/-- In every run from boot and for each port: the bytes delivered, followed by the peeked byte, are
the bytes taken from the port's stream. Looking at the next byte uses up nothing. What `peek`
returns is what a read returns next, at once or, if it is a byte, after anything but a read of the
port, and what a `readBytes` returns first. The answers and the state of the port depend on its own
stream, calls and changes only. -/
theorem lookahead_loses_nothing (pending : Fin 2 → List UInt8) (events : List Event)
    (port : Port) :
    let done := (World.boot pending).run events
    let w := done.2
    deliveredOn port done.1 ++ w.peekedByte port = (w.streams port.instancePort).taken ∧
      ((w.available port).2.upcoming port = w.upcoming port ∧
        (w.peek port).2.upcoming port = w.upcoming port) ∧
      ((w.peek port).2.read port).1 = (w.peek port).1 ∧
      (∀ more : List Event, (∀ c, .call port c ∈ more → c = .available ∨ c = .peek) →
        0 ≤ (w.peek port).1 →
        let w' := ((w.peek port).2.run more).2
        (w'.read port).1 = (w.peek port).1 ∧
          ∀ length during, (w'.readBytes port false (length + 1) during).1.head? =
            some (UInt8.ofInt (w.peek port).1)) ∧
      (∀ pending' events', pending' port.instancePort = pending port.instancePort →
        events'.flatMap (Event.on port) = events.flatMap (Event.on port) →
        let done' := (World.boot pending').run events'
        answersOn port done'.1 = answersOn port done.1 ∧
          done'.2.peeked port = w.peeked port ∧
          done'.2.streams port.instancePort = w.streams port.instancePort) := by
  intro done w
  have hrun (pending : Fin 2 → List UInt8) (events : List Event) (id : Port) :=
    World.Shows.run (World.boot_shows pending) events id
  have hall (id : Port) := (hrun pending events id).2
  have hshows := hall port
  have hpeek := hshows.peek
  have hpeeked := w.shows_setLine port
    ((Line.boot (pending port.instancePort)).run (events.flatMap (Event.on port))).2.fill
  refine ⟨?_, ⟨?_, ?_⟩, ?_, ?_, ?_⟩
  · obtain ⟨taken, htaken, hdelivered⟩ :=
      Line.run_passes (.boot (pending port.instancePort)) (events.flatMap (Event.on port))
    rw [hshows.peekedByte, hshows.stream, htaken, deliveredOn, (hrun pending events port).1]
    exact hdelivered.symm
  · rw [hshows.available, hpeeked.upcoming, hshows.upcoming]
    exact Line.fill_upcoming _
  · rw [hpeek, hpeeked.upcoming, hshows.upcoming]
    exact Line.fill_upcoming _
  · rw [hpeek, hpeeked.read]
    exact congrArg (fun l : Line => encode l.held) (Line.fill_fill _)
  · intro more looks
    rw [hpeek]
    intro hbyte
    generalize ((Line.boot (pending port.instancePort)).run (events.flatMap (Event.on port))).2.fill
      = l at hpeeked hbyte ⊢
    cases hheld : l.held with
    | none => exact absurd hbyte (Int.not_le.mpr ((encode_neg_iff l.held).mpr hheld))
    | some byte =>
      have hmore := (World.Shows.run (World.shows_update hall port l) more port).2
      rw [Function.update_self] at hmore
      have hlooks : ∀ c, .call c ∈ more.flatMap (Event.on port) → c = .available ∨ c = .peek := by
        intro c hc
        obtain ⟨c', hc', rfl⟩ := mem_on_port hc
        obtain rfl | rfl := looks c' hc'
        · exact .inl rfl
        · exact .inr rfl
      have hkept := Line.run_held hheld hlooks
      refine ⟨?_, fun length during => ?_⟩
      · rw [hmore.read]
        show encode (Line.fill _).held = encode (some byte)
        rw [Line.fill_of_held hkept, hkept]
      · show (World.readBytesLoop _ port during (length + 1)).1.head? =
          some (UInt8.ofInt byte.toNat)
        rw [(hmore.readBytesLoop during (length + 1)).1, ofInt_toNat]
        exact Line.readBytesLoop_held hkept _ length
  · intro pending' events' hpending hevents done'
    obtain ⟨hanswers', hshows'⟩ := hrun pending' events' port
    rw [hpending, hevents] at hanswers' hshows'
    exact ⟨hanswers'.trans (hrun pending events port).1.symm,
      hshows'.peeked.trans hshows.peeked.symm, hshows'.stream.trans hshows.stream.symm⟩

example : ((World.boot fun _ => [0, 255]).run
    [.call .portSerial .peek, .call .portSerial (.readBytes false 3 []),
      .call .portSerial .peek, .call .portSerial1 .read]).1 =
    [(.portSerial, .peek 0), (.portSerial, .readBytes [0, 255]), (.portSerial, .peek (-1)),
      (.portSerial1, .read 0)] := by
  decide

end Rtbus.Arduino
