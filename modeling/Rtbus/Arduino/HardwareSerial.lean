import Rtbus.Serial.Ring

/-!
# The serial ports of the Arduino core

`HardwareSerial.cpp` gives a sketch two serial ports on top of `rtbus_serial_read`, which takes one
byte of a runtime stream at a time and cannot look at a byte without taking it. `available` and
`peek` have to: the byte they find stays behind in `peeked` of the port's instance, where `-1`
stands for no byte.

`World` is the core's instances and the runtime's streams. A stream is the bytes the runtime holds
for the next reads and, for the record, those the core has taken. The runtime changes what it holds
whenever it likes (`RuntimeStep`): bytes arrive, a full ring drops its oldest one, a flush or an
upgrade leaves nothing to read. In a run such steps come between the calls, and inside a
`readBytes`, before each of its reads. `nativeApiSerialRead_stream` is the runtime's side of it.
-/

namespace Rtbus.Arduino

open Rtbus.Serial

/-- `HardwareSerial::Port`. -/
inductive Port
  | portSerial
  | portSerial1
  deriving DecidableEq, Repr

/-- `serial_instances[port].port`: `RTBUS_SERIAL_PORT_0` and `RTBUS_SERIAL_PORT_1`. -/
def Port.instancePort : Port → Fin 2
  | .portSerial => ⟨0, Nat.zero_lt_two⟩
  | .portSerial1 => ⟨1, Nat.one_lt_two⟩

theorem Port.instancePort_inj {p q : Port} : p.instancePort = q.instancePort ↔ p = q := by
  cases p <;> cases q <;> decide

/-- What the runtime holds for a port and what the core has taken from it. -/
structure Stream where
  pending : List UInt8
  taken : List UInt8

/-- `peeked` of `serial_instances`, and the streams of the runtime. -/
structure World where
  peeked : Port → Int
  streams : Fin 2 → Stream

/-- What the runtime does on its own to the bytes it holds for a port. An arrival is
`(· ++ bytes)`. -/
structure RuntimeStep where
  port : Fin 2
  change : List UInt8 → List UInt8

namespace World

/-- The core before its first call: nothing has been peeked at or taken. -/
def boot (pending : Fin 2 → List UInt8) : World where
  peeked _ := -1
  streams port := { pending := pending port, taken := [] }

def setPeeked (w : World) (port : Port) (value : Int) : World :=
  { w with peeked := Function.update w.peeked port value }

def setStream (w : World) (port : Fin 2) (stream : Stream) : World :=
  { w with streams := Function.update w.streams port stream }

@[simp] theorem setStream_self (w : World) (port : Fin 2) (stream : Stream) :
    (w.setStream port stream).streams port = stream := Function.update_self ..

theorem setStream_other (w : World) {port id : Fin 2} (ne : id ≠ port) (stream : Stream) :
    (w.setStream port stream).streams id = w.streams id := Function.update_of_ne ne ..

def runtimeStep (w : World) (s : RuntimeStep) : World :=
  w.setStream s.port { w.streams s.port with pending := s.change (w.streams s.port).pending }

def runtimeSteps (w : World) (steps : List RuntimeStep) : World := steps.foldl runtimeStep w

/-- `rtbus_serial_read`: the next byte, or `-1` if there is none. -/
def rtbusSerialRead (w : World) (port : Fin 2) : Int × World :=
  match (w.streams port).pending with
  | [] => (-1, w)
  | byte :: rest =>
    (byte.toNat, w.setStream port { pending := rest, taken := (w.streams port).taken ++ [byte] })

/-- `runtime_arduino_serial_read` into a buffer of `size` bytes: what it stores there. -/
def runtimeArduinoSerialRead (w : World) (port : Fin 2) : Nat → List UInt8 × World
  | 0 => ([], w)
  | size + 1 =>
    let got := w.rtbusSerialRead port
    if got.1 < 0 then ([], got.2)
    else
      let rest := got.2.runtimeArduinoSerialRead port size
      (UInt8.ofInt got.1 :: rest.1, rest.2)

/-- `HardwareSerial::available`. -/
def available (w : World) (port : Port) : Int × World :=
  if 0 ≤ w.peeked port then (1, w)
  else
    let got := w.runtimeArduinoSerialRead port.instancePort 1
    match got.1 with
    | [] => (0, got.2)
    | byte :: _ => (1, got.2.setPeeked port byte.toNat)

/-- `HardwareSerial::peek`. -/
def peek (w : World) (port : Port) : Int × World :=
  let found := w.available port
  if found.1 = 0 then (-1, found.2) else (found.2.peeked port, found.2)

/-- `HardwareSerial::read`. -/
def read (w : World) (port : Port) : Int × World :=
  if 0 ≤ w.peeked port then (w.peeked port, w.setPeeked port (-1))
  else
    let got := w.runtimeArduinoSerialRead port.instancePort 1
    match got.1 with
    | [] => (-1, got.2)
    | byte :: _ => (byte.toNat, got.2)

/-- The loop of `HardwareSerial::readBytes`: what it stores, given what the runtime does before
each of its reads. What is left of that when the loop ends comes after it. -/
def readBytesLoop (w : World) (port : Port) : List (List RuntimeStep) → Nat → List UInt8 × World
  | during, 0 => ([], w.runtimeSteps during.flatten)
  | during, length + 1 =>
    let got := (w.runtimeSteps (during.headD [])).read port
    if got.1 < 0 then ([], got.2.runtimeSteps during.tail.flatten)
    else
      let rest := got.2.readBytesLoop port during.tail length
      (UInt8.ofInt got.1 :: rest.1, rest.2)

/-- `HardwareSerial::readBytes`, for both types of buffer; `isNull` is `buffer == nullptr`. The
number it returns is that of the bytes it stores. -/
def readBytes (w : World) (port : Port) (isNull : Bool) (length : Nat)
    (during : List (List RuntimeStep)) : List UInt8 × World :=
  if isNull ∨ length = 0 then ([], w.runtimeSteps during.flatten)
  else w.readBytesLoop port during length

end World

/-! ## Runs -/

/-- A call of a sketch on one of its ports, with the steps `σ` of the runtime during a `readBytes`.
The other calls ask the runtime once at most, so that its steps come before or after them. -/
inductive Call (σ : Type)
  | available
  | peek
  | read
  | readBytes (isNull : Bool) (length : Nat) (during : List (List σ))

inductive Event
  | call (port : Port) (call : Call RuntimeStep)
  | runtime (step : RuntimeStep)

/-- What a call returns. -/
inductive Answer
  | available (count : Int)
  | peek (value : Int)
  | read (value : Int)
  | readBytes (bytes : List UInt8)
  deriving DecidableEq

/-- The bytes an answer delivers. -/
def Answer.delivered : Answer → List UInt8
  | .available _ => []
  | .peek _ => []
  | .read value => if value < 0 then [] else [UInt8.ofInt value]
  | .readBytes bytes => bytes

namespace World

def call (w : World) (port : Port) : Call RuntimeStep → Answer × World
  | .available => (.available (w.available port).1, (w.available port).2)
  | .peek => (.peek (w.peek port).1, (w.peek port).2)
  | .read => (.read (w.read port).1, (w.read port).2)
  | .readBytes isNull length during =>
    (.readBytes (w.readBytes port isNull length during).1,
      (w.readBytes port isNull length during).2)

/-- A sequence of events: the answers with the ports they were given on, and the world at the
end. -/
def run (w : World) : List Event → List (Port × Answer) × World
  | [] => ([], w)
  | .call port call :: rest =>
    let done := w.call port call
    ((port, done.1) :: (done.2.run rest).1, (done.2.run rest).2)
  | .runtime step :: rest => (w.runtimeStep step).run rest

end World

/-- The answers given on a port, in order. -/
def answersOn (port : Port) (answers : List (Port × Answer)) : List Answer :=
  answers.filterMap fun a => if a.1 = port then some a.2 else none

/-- The bytes delivered on a port, in order. -/
def deliveredOn (port : Port) (answers : List (Port × Answer)) : List UInt8 :=
  (answersOn port answers).flatMap Answer.delivered

/-! ## The runtime -/

variable {n : Nat}

/-- `native_api_serial_read`, which serves `rtbus_serial_read`; `suppressed` is
`native_console_suppressed`. -/
def nativeApiSerialRead (suppressed : Bool) (s : Service n) (port : Fin 2) (pollIn : List UInt8) :
    Int × Service n :=
  if suppressed then (-1, s)
  else
    let got := s.read port pollIn 1
    match got.1 with
    | [] => (-1, got.2)
    | byte :: _ => (byte.toNat, got.2)

/-- What the runtime holds for the next reads of a port: the bytes of its ring, unless the console
is suppressed or the port is not set up. -/
def pendingOf (suppressed : Bool) (s : Service n) (port : Fin 2) : List UInt8 :=
  if suppressed ∨ ¬ (s.ports port).hasDev ∨ ¬ (s.ports port).prepared ∨
      ¬ (s.ports port).deviceIsReady then []
  else (s.ports port).queue

/-- The streams of a world hold what the runtime does. -/
def Serves (suppressed : Bool) (s : Service n) (w : World) : Prop :=
  ∀ port, (w.streams port).pending = pendingOf suppressed s port

/-- A read of one byte on a port with interrupt reception is one get. -/
theorem readLoop_one (port : SerialPort n) (pollIn : List UInt8) (ready : port.rxReady = true) :
    port.readLoop pollIn 1 = (port.rxGet.1.toList, port.rxGet.2) := by
  have hready : port.rxGet.2.rxReady = true := (port.step_rxReady .get).trans ready
  unfold SerialPort.readLoop
  generalize port.rxGet = got at hready ⊢
  obtain ⟨got, port'⟩ := got
  cases got with
  | none => exact if_pos (.inr hready)
  | some byte => rfl

theorem read_down {s : Service n} {port : Fin 2} (down : ¬ (s.ports port).hasDev ∨
    ¬ (s.ports port).prepared ∨ ¬ (s.ports port).deviceIsReady) (pollIn : List UInt8) :
    s.read port pollIn 1 = ([], s) := by
  unfold Service.read
  rw [dif_pos port.isLt, if_pos]
  obtain h | h | h := down
  · exact .inl h
  · exact .inr (.inl h)
  · exact .inr (.inr (.inr h))

theorem read_up {s : Service n} {port : Fin 2} (up : ¬ (¬ (s.ports port).hasDev ∨
    ¬ (s.ports port).prepared ∨ ¬ (s.ports port).deviceIsReady)) (pollIn : List UInt8) :
    s.read port pollIn 1 =
      ((s.ports port).rxGet.1.toList, s.setPort port (s.ports port).rxGet.2) := by
  simp only [not_or, not_not] at up
  obtain ⟨hasDev, prepared, deviceIsReady⟩ := up
  unfold Service.read
  rw [dif_pos port.isLt, if_neg (by simp [hasDev, prepared, deviceIsReady])]
  have hloop := readLoop_one (s.ports port) pollIn ((s.ports port).rxReady_of_prepared prepared)
  dsimp only
  rw [hloop]

/-- A get leaves a port set up or not, as it was. -/
theorem rxGet_flags (port : SerialPort n) :
    port.rxGet.2.hasDev = port.hasDev ∧ port.rxGet.2.prepared = port.prepared ∧
      port.rxGet.2.deviceIsReady = port.deviceIsReady := by
  unfold SerialPort.rxGet
  split <;> exact ⟨rfl, rfl, rfl⟩

theorem pendingOf_rxGet (suppressed : Bool) (s : Service n) (port id : Fin 2) :
    pendingOf suppressed (s.setPort port (s.ports port).rxGet.2) id =
      if id = port then (pendingOf suppressed s id).tail else pendingOf suppressed s id := by
  obtain ⟨hasDev, prepared, deviceIsReady⟩ := rxGet_flags (s.ports port)
  unfold pendingOf
  by_cases hid : id = port
  · subst hid
    rw [Service.setPort_self, hasDev, prepared, deviceIsReady, if_pos rfl,
      (s.ports id).queue_rxGet.2]
    split <;> rfl
  · rw [Service.setPort_other s hid, if_neg hid]

/-- `native_api_serial_read` does to the service what `rtbus_serial_read` does to the stream. -/
theorem nativeApiSerialRead_stream {suppressed : Bool} {s : Service n} {w : World}
    (h : Serves suppressed s w) (port : Fin 2) (pollIn : List UInt8) :
    (nativeApiSerialRead suppressed s port pollIn).1 = (w.rtbusSerialRead port).1 ∧
      Serves suppressed (nativeApiSerialRead suppressed s port pollIn).2
        (w.rtbusSerialRead port).2 := by
  have hport := h port
  unfold nativeApiSerialRead World.rtbusSerialRead
  by_cases hdown : suppressed ∨ ¬ (s.ports port).hasDev ∨ ¬ (s.ports port).prepared ∨
      ¬ (s.ports port).deviceIsReady
  · have hnone : (w.streams port).pending = [] := hport.trans (if_pos hdown)
    rw [hnone]
    by_cases hsuppressed : suppressed = true
    · rw [if_pos hsuppressed]
      exact ⟨rfl, h⟩
    · rw [if_neg hsuppressed, read_down (hdown.resolve_left hsuppressed)]
      exact ⟨rfl, h⟩
  · have hqueue : (w.streams port).pending = (s.ports port).queue := hport.trans (if_neg hdown)
    rw [if_neg (fun hs => hdown (.inl hs)), read_up (fun hd => hdown (.inr hd))]
    obtain ⟨hgot, hleft⟩ := (s.ports port).queue_rxGet
    have hrest := fun id => pendingOf_rxGet suppressed s port id
    dsimp only
    rw [hgot, hqueue]
    cases hbytes : (s.ports port).queue with
    | nil =>
      refine ⟨rfl, fun id => ?_⟩
      refine (h id).trans ?_
      dsimp only [List.head?_nil, Option.toList_none]
      rw [hrest id]
      split
      · rename_i hid
        subst hid
        rw [← hport, hqueue, hbytes]
        rfl
      · rfl
    | cons byte rest =>
      refine ⟨rfl, fun id => ?_⟩
      dsimp only [List.head?_cons, Option.toList_some]
      rw [hrest id]
      by_cases hid : id = port
      · subst hid
        rw [if_pos rfl, ← hport, hqueue, hbytes]
        exact congrArg Stream.pending (w.setStream_self ..)
      · rw [if_neg hid, ← h id]
        exact congrArg Stream.pending (w.setStream_other hid ..)

/-- Whatever becomes of the service by itself, steps of the runtime account for it. -/
theorem Serves.change (suppressed : Bool) (s : Service n) (w : World) :
    Serves suppressed s (w.runtimeSteps
      [{ port := 0, change := fun _ => pendingOf suppressed s 0 },
        { port := 1, change := fun _ => pendingOf suppressed s 1 }]) :=
  Fin.forall_fin_two.mpr ⟨rfl, rfl⟩

end Rtbus.Arduino
