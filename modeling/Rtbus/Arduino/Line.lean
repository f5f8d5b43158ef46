import Rtbus.Arduino.HardwareSerial

/-!
# A line with one byte of lookahead

`Line` is a serial port as its readers see it: a stream and at most one byte taken from it and held
back. Every call first fills the hold, if it is empty and a byte is there; `available` and `peek`
leave it filled and a read empties it. A line knows nothing of the other port: `Event.on` is what an
event is to the line of a port.

On a line it is plain that a byte taken is delivered or held (`Line.run_passes`) and that a held
byte stays until it is read (`Line.run_held`).
-/

namespace Rtbus.Arduino

/-- A change of the bytes the runtime holds. -/
abbrev Change := List UInt8 → List UInt8

/-- A port as its readers see it. -/
structure Line where
  held : Option UInt8
  stream : Stream

/-- A byte as an `int`, with `-1` for none. -/
def encode : Option UInt8 → Int
  | none => -1
  | some byte => byte.toNat

namespace Line

/-- A line before its first call. -/
def boot (pending : List UInt8) : Line := { held := none, stream := { pending, taken := [] } }

def change (l : Line) (f : Change) : Line :=
  { l with stream := { l.stream with pending := f l.stream.pending } }

def changes (l : Line) (fs : List Change) : Line := fs.foldl change l

/-- Hold the next byte, if none is held and there is one. -/
def fill (l : Line) : Line :=
  if l.held.isSome then l
  else
    match l.stream.pending with
    | [] => l
    | byte :: rest =>
      { held := some byte, stream := { pending := rest, taken := l.stream.taken ++ [byte] } }

def read (l : Line) : Option UInt8 × Line := (l.fill.held, { l.fill with held := none })

def readBytesLoop (l : Line) : List (List Change) → Nat → List UInt8 × Line
  | during, 0 => ([], l.changes during.flatten)
  | during, length + 1 =>
    let got := (l.changes (during.headD [])).read
    match got.1 with
    | none => ([], got.2.changes during.tail.flatten)
    | some byte =>
      let rest := got.2.readBytesLoop during.tail length
      (byte :: rest.1, rest.2)

def call (l : Line) : Call Change → Answer × Line
  | .available => (.available (if l.fill.held.isSome then 1 else 0), l.fill)
  | .peek => (.peek (encode l.fill.held), l.fill)
  | .read => (.read (encode l.read.1), l.read.2)
  | .readBytes isNull length during =>
    if isNull ∨ length = 0 then (.readBytes [], l.changes during.flatten)
    else (.readBytes (l.readBytesLoop during length).1, (l.readBytesLoop during length).2)

end Line

/-- What happens on one line: a call, or a change of its stream. -/
inductive LineEvent
  | call (call : Call Change)
  | change (f : Change)

def Line.run (l : Line) : List LineEvent → List Answer × Line
  | [] => ([], l)
  | .call call :: rest =>
    let done := l.call call
    (done.1 :: (done.2.run rest).1, (done.2.run rest).2)
  | .change f :: rest => (l.change f).run rest

/-! ## The events of a port -/

/-- What the steps of the runtime do to a port. -/
def changesOn (port : Port) (steps : List RuntimeStep) : List Change :=
  steps.filterMap fun s => if s.port = port.instancePort then some s.change else none

/-- A call with what the runtime does to the port of the call meanwhile. -/
def Call.on (port : Port) : Call RuntimeStep → Call Change
  | .available => .available
  | .peek => .peek
  | .read => .read
  | .readBytes isNull length during => .readBytes isNull length (during.map (changesOn port))

/-- The steps of the runtime during a call. -/
def Call.steps {σ : Type} : Call σ → List σ
  | .readBytes _ _ during => during.flatten
  | _ => []

/-- What an event is to a port: one of its calls, or what the runtime does to its stream. -/
def Event.on (port : Port) : Event → List LineEvent
  | .call port' c =>
    if port' = port then [.call (c.on port)] else (changesOn port c.steps).map .change
  | .runtime step => (changesOn port [step]).map .change

/-- What happens on a port in two stretches. -/
theorem changesOn_append (port : Port) (xs ys : List RuntimeStep) :
    changesOn port (xs ++ ys) = changesOn port xs ++ changesOn port ys := List.filterMap_append

/-- What happens on a port during a call is what happens in each of its steps. -/
theorem changesOn_flatten (port : Port) (during : List (List RuntimeStep)) :
    changesOn port during.flatten = (during.map (changesOn port)).flatten :=
  List.filterMap_flatten

/-- The first step of a call. -/
theorem headD_map (port : Port) (during : List (List RuntimeStep)) :
    (during.map (changesOn port)).headD [] = changesOn port (during.headD []) := by
  cases during with
  | nil => rfl
  | cons steps during => rfl

/-- What happens during a call: its first step, then the others. -/
theorem flatten_headD_tail {σ : Type} (during : List (List σ)) :
    during.flatten = during.headD [] ++ during.tail.flatten := by
  cases during with
  | nil => rfl
  | cons steps during => rfl

/-! ## Lines -/

/-- The held byte is read as negative exactly when there is none. -/
theorem encode_neg_iff (held : Option UInt8) : encode held < 0 ↔ held = none := by
  cases held with
  | none => exact ⟨fun _ => rfl, fun _ => Int.negSucc_lt_zero 0⟩
  | some byte =>
    exact ⟨fun h => absurd h (Int.not_lt.mpr (Int.natCast_nonneg _)),
      fun h => absurd h (Option.some_ne_none byte)⟩

/-- A byte survives the way through `int`. -/
theorem ofInt_toNat (byte : UInt8) : UInt8.ofInt byte.toNat = byte := by
  have hlt := byte.toNat_lt
  have hmod : ((byte.toNat : Int) % 2 ^ 8).toNat = byte.toNat := by omega
  unfold UInt8.ofInt
  rw [hmod, UInt8.ofNat_toNat]

/-- A read delivers the held byte. -/
theorem delivered_read (held : Option UInt8) :
    (Answer.read (encode held)).delivered = held.toList := by
  cases held with
  | none => rfl
  | some byte =>
    have hneg : ¬ encode (some byte) < 0 := (encode_neg_iff _).not.mpr (Option.some_ne_none _)
    show (if encode (some byte) < 0 then [] else [UInt8.ofInt byte.toNat]) = [byte]
    rw [if_neg hneg, ofInt_toNat]

namespace Line

/-- Between two states of a line every byte held or taken has been delivered or is held. -/
def Passes (l l' : Line) (delivered : List UInt8) : Prop :=
  ∃ taken, l'.stream.taken = l.stream.taken ++ taken ∧
    l.held.toList ++ taken = delivered ++ l'.held.toList

theorem Passes.refl (l : Line) : l.Passes l [] := ⟨[], (List.append_nil _).symm, List.append_nil _⟩

/-- What two calls pass on, one behind the other. -/
theorem Passes.trans {l l' l'' : Line} {xs ys : List UInt8} (h : l.Passes l' xs)
    (h' : l'.Passes l'' ys) : l.Passes l'' (xs ++ ys) := by
  obtain ⟨taken, htaken, hdelivered⟩ := h
  obtain ⟨taken', htaken', hdelivered'⟩ := h'
  refine ⟨taken ++ taken', by rw [htaken', htaken, List.append_assoc], ?_⟩
  rw [← List.append_assoc, hdelivered, List.append_assoc, hdelivered', List.append_assoc]

/-- What happens around the calls passes nothing on by itself. -/
theorem change_passes (l : Line) (f : Change) : l.Passes (l.change f) [] := .refl l

/-- Nor do any number of these changes. -/
theorem changes_passes (l : Line) (fs : List Change) : l.Passes (l.changes fs) [] := by
  induction fs generalizing l with
  | nil => exact .refl l
  | cons f fs ih => exact (l.change_passes f).trans (ih (l.change f))

/-- Changes in two stretches. -/
theorem changes_append (l : Line) (fs gs : List Change) :
    l.changes (fs ++ gs) = (l.changes fs).changes gs := List.foldl_append ..

/-- The changes in front of a call come first. -/
theorem run_changes (l : Line) (fs : List Change) (rest : List LineEvent) :
    l.run (fs.map .change ++ rest) = (l.changes fs).run rest := by
  induction fs generalizing l with
  | nil => rfl
  | cons f fs ih => exact ih (l.change f)

/-- A byte is held already. -/
theorem fill_of_held {l : Line} {byte : UInt8} (h : l.held = some byte) : l.fill = l := by
  unfold fill
  rw [h]
  rfl

/-- The port has none. -/
theorem fill_of_nil {l : Line} (h : l.held = none) (hp : l.stream.pending = []) : l.fill = l := by
  unfold fill
  rw [h, hp]
  rfl

/-- The port has one, which is held from then on. -/
theorem fill_of_cons {l : Line} (h : l.held = none) {byte : UInt8} {rest : List UInt8}
    (hp : l.stream.pending = byte :: rest) :
    l.fill =
      { held := some byte, stream := { pending := rest, taken := l.stream.taken ++ [byte] } } := by
  unfold fill
  rw [h, hp]
  rfl

/-- Looking ahead takes nothing out of the stream. -/
theorem fill_passes (l : Line) : l.Passes l.fill [] := by
  cases hheld : l.held with
  | some byte =>
    rw [fill_of_held hheld]
    exact .refl l
  | none =>
    cases hpending : l.stream.pending with
    | nil =>
      rw [fill_of_nil hheld hpending]
      exact .refl l
    | cons byte rest =>
      rw [fill_of_cons hheld hpending]
      exact ⟨[byte], rfl, by rw [hheld]; rfl⟩

/-- A read takes the byte that it returns. -/
theorem read_passes (l : Line) : l.Passes l.read.2 l.read.1.toList := by
  have hread : l.fill.Passes l.read.2 l.read.1.toList := ⟨[], (List.append_nil _).symm, rfl⟩
  exact l.fill_passes.trans hread

/-- A read of many bytes takes those that it returns, in order, whatever comes meanwhile. -/
theorem readBytesLoop_passes (l : Line) (during : List (List Change)) (length : Nat) :
    l.Passes (l.readBytesLoop during length).2 (l.readBytesLoop during length).1 := by
  induction length generalizing l during with
  | zero => exact l.changes_passes during.flatten
  | succ length ih =>
    have hread := (l.changes_passes (during.headD [])).trans (read_passes _)
    rw [List.nil_append] at hread
    simp only [readBytesLoop]
    split
    · rename_i hnone
      rw [hnone] at hread
      exact hread.trans (changes_passes _ _)
    · rename_i byte hsome
      rw [hsome] at hread
      exact hread.trans (ih _ _)

/-- Every call takes from the stream what it delivers. -/
theorem call_passes (l : Line) (c : Call Change) :
    l.Passes (l.call c).2 (l.call c).1.delivered := by
  cases c with
  | available => exact l.fill_passes
  | peek => exact l.fill_passes
  | read =>
    show l.Passes l.read.2 (Answer.read (encode l.read.1)).delivered
    rw [delivered_read]
    exact l.read_passes
  | readBytes isNull length during =>
    simp only [call]
    split
    · exact l.changes_passes _
    · exact l.readBytesLoop_passes during length

/-- In a run, what is delivered and what is held at the end is what was held and what was taken. -/
theorem run_passes (l : Line) (events : List LineEvent) :
    l.Passes (l.run events).2 ((l.run events).1.flatMap Answer.delivered) := by
  induction events generalizing l with
  | nil => exact .refl l
  | cons event rest ih =>
    cases event with
    | call c => exact (l.call_passes c).trans (ih _)
    | change f => exact (l.change_passes f).trans (ih _)

/-! ## The held byte -/

/-- Looking at the next byte does not use it up. -/
theorem fill_upcoming (l : Line) :
    l.fill.held.toList ++ l.fill.stream.pending = l.held.toList ++ l.stream.pending := by
  cases hheld : l.held with
  | some byte => rw [fill_of_held hheld, hheld]
  | none =>
    cases hpending : l.stream.pending with
    | nil => rw [fill_of_nil hheld hpending, hheld, hpending]
    | cons byte rest => rw [fill_of_cons hheld hpending]; rfl

/-- Looking ahead twice is looking ahead once. -/
theorem fill_fill (l : Line) : l.fill.fill = l.fill := by
  cases hheld : l.held with
  | some byte => rw [fill_of_held hheld, fill_of_held hheld]
  | none =>
    cases hpending : l.stream.pending with
    | nil => rw [fill_of_nil hheld hpending, fill_of_nil hheld hpending]
    | cons byte rest => rw [fill_of_cons hheld hpending, fill_of_held rfl]

/-- What comes in meanwhile does not touch the byte held. -/
theorem changes_held (l : Line) (fs : List Change) : (l.changes fs).held = l.held := by
  induction fs generalizing l with
  | nil => rfl
  | cons f fs ih => exact ih (l.change f)

/-- A held byte stays until it is read. -/
theorem run_held {l : Line} {byte : UInt8} (held : l.held = some byte) {events : List LineEvent}
    (looks : ∀ c, .call c ∈ events → c = .available ∨ c = .peek) :
    (l.run events).2.held = some byte := by
  induction events generalizing l with
  | nil => exact held
  | cons event rest ih =>
    have hrest := fun c hc => looks c (List.mem_cons_of_mem _ hc)
    cases event with
    | change f => exact ih (l := l.change f) held hrest
    | call c =>
      have hfill : l.fill.held = some byte := by rw [fill_of_held held, held]
      obtain rfl | rfl := looks c List.mem_cons_self
      · exact ih (l := l.fill) hfill hrest
      · exact ih (l := l.fill) hfill hrest

/-- The first byte of a read is the one held. -/
theorem readBytesLoop_held {l : Line} {byte : UInt8} (held : l.held = some byte)
    (during : List (List Change)) (length : Nat) :
    (l.readBytesLoop during (length + 1)).1.head? = some byte := by
  have hchanged := (l.changes_held (during.headD [])).trans held
  have hread : (l.changes (during.headD [])).read.1 = some byte := by
    show (l.changes (during.headD [])).fill.held = _
    rw [fill_of_held hchanged, hchanged]
  simp only [readBytesLoop]
  rw [hread]
  rfl

end Line

/-- The calls on a port's line are those on the port. -/
theorem mem_on_port {port : Port} {events : List Event} {c : Call Change}
    (h : .call c ∈ events.flatMap (Event.on port)) :
    ∃ c', .call port c' ∈ events ∧ c = c'.on port := by
  obtain ⟨event, hevent, hc⟩ := List.mem_flatMap.mp h
  have hchanges {fs : List Change} (hc : .call c ∈ fs.map LineEvent.change) : False := by
    obtain ⟨f, _, hf⟩ := List.mem_map.mp hc
    cases hf
  cases event with
  | runtime s => exact (hchanges hc).elim
  | call port' c' =>
    by_cases hport : port' = port
    · rw [Event.on, if_pos hport] at hc
      cases List.mem_singleton.mp hc
      exact ⟨c', hport ▸ hevent, rfl⟩
    · rw [Event.on, if_neg hport] at hc
      exact (hchanges hc).elim

end Rtbus.Arduino
