import Rtbus.Base.DropOldest
import Rtbus.Serial.Transparency

/-!
# The receive ring as a queue that drops its oldest byte

`RxRing` is the part of a serial port that its lock guards, with the indices of the C code: plain
numbers, reduced with `%` at every step. Nothing but the three ring operations keeps them below the
size of the buffer; `SerialPort` has that as a type, and its operations are the same on the ring
(`serialQueue_ring`).

A ring of `n` cells is the reference queue of capacity `n - 1` (`serialQueue_queue`). One cell stays
free, so that equal indices mean an empty ring only; a put on a full ring moves the tail as well as
the head, and that is the put which gives up the oldest byte.

A read is a loop of gets, and each get takes the lock by itself. `readLoopAmong` is the loop with
what others do to the ring before each of its gets; alone it is the `readLoop` of the service.
-/

namespace Rtbus.Serial

open Rtbus.Circular Rtbus.DropOldest

/-- `rx_head`, `rx_tail` and `rx_buffer` of `struct rtbus_runtime_serial_port`. -/
structure RxRing where
  rxHead : Nat
  rxTail : Nat
  rxBuffer : Nat → UInt8

namespace RxRing

variable (n : Nat)

/-- The ring at boot: both indices are zero. -/
def zeroed (cells : Nat → UInt8) : RxRing := { rxHead := 0, rxTail := 0, rxBuffer := cells }

/-- `rtbus_runtime_serial_rx_put`, with `sizeof(port->rx_buffer) = n`. -/
def put (ring : RxRing) (byte : UInt8) : RxRing :=
  let nextHead := (ring.rxHead + 1) % n
  let rxTail := if nextHead = ring.rxTail then (ring.rxTail + 1) % n else ring.rxTail
  { rxTail := rxTail
    rxBuffer := Function.update ring.rxBuffer ring.rxHead byte
    rxHead := nextHead }

/-- `rtbus_runtime_serial_rx_get`. -/
def get (ring : RxRing) : Option UInt8 × RxRing :=
  if ring.rxTail ≠ ring.rxHead then
    (some (ring.rxBuffer ring.rxTail), { ring with rxTail := (ring.rxTail + 1) % n })
  else
    (none, ring)

/-- `rtbus_runtime_serial_rx_clear`. -/
def clear (ring : RxRing) : RxRing := { ring with rxHead := 0, rxTail := 0 }

/-- The bytes from the tail to the head. -/
def bytes (ring : RxRing) : List UInt8 :=
  window ring.rxBuffer n ring.rxTail ((ring.rxHead + (n - ring.rxTail)) % n)

end RxRing

/-- The operations on the ring of a port, as those of a queue. -/
def rxRing (n : Nat) : Queue UInt8 RxRing where
  put := RxRing.put n
  get := RxRing.get n
  clear := RxRing.clear

/-- The operations on a port. -/
def serialQueue (n : Nat) : Queue UInt8 (SerialPort n) where
  put := SerialPort.rxPut
  get := SerialPort.rxGet
  clear := SerialPort.rxClear

namespace SerialPort

variable {n : Nat}

/-- The ring of a port. -/
def ring (port : SerialPort n) : RxRing :=
  { rxHead := port.rxHead, rxTail := port.rxTail, rxBuffer := port.rxBuffer }

/-- The loop of `rtbus_runtime_serial_read`, given the ring operations of others that come before
the get at which `k` bytes are still wanted. -/
def readLoopAmong (others : Nat → List (Op UInt8)) (port : SerialPort n) (pollIn : List UInt8) :
    Nat → List UInt8 × SerialPort n
  | 0 => ([], port)
  | size + 1 =>
    match ((serialQueue n).run port (others (size + 1))).2.rxGet with
    | (some byte, port') =>
      let rest := port'.readLoopAmong others pollIn size
      (byte :: rest.1, rest.2)
    | (none, port') =>
      if port'.isCdc ∨ port'.rxReady then ([], port')
      else
        match pollIn with
        | [] => ([], port')
        | byte :: pollIn' =>
          let rest := port'.readLoopAmong others pollIn' size
          (byte :: rest.1, rest.2)

/-! ## The ring of a port -/

/-- The ring of a port holds the queue of the port. -/
theorem ring_bytes (port : SerialPort n) : port.ring.bytes n = port.queue := rfl

/-- Putting a byte is putting it into the ring. -/
theorem ring_rxPut (port : SerialPort n) (byte : UInt8) :
    (port.rxPut byte).ring = port.ring.put n byte := by
  have htail : (port.rxPut byte).rxTail.val =
      if (port.rxHead.val + 1) % n = port.rxTail.val then (port.rxTail.val + 1) % n
      else port.rxTail.val := by
    show (if nextIndex port.rxHead = port.rxTail then nextIndex port.rxTail else port.rxTail).val = _
    rw [apply_ite Fin.val]
    exact if_congr Fin.ext_iff rfl rfl
  show RxRing.mk _ (port.rxPut byte).rxTail.val _ = _
  rw [htail]
  rfl

/-- Getting one is getting it from the ring. -/
theorem ring_rxGet (port : SerialPort n) :
    port.rxGet.1 = (port.ring.get n).1 ∧ port.rxGet.2.ring = (port.ring.get n).2 := by
  have hne : port.rxTail ≠ port.rxHead ↔ port.ring.rxTail ≠ port.ring.rxHead := Fin.ext_iff.not
  unfold rxGet RxRing.get
  by_cases h : port.rxTail ≠ port.rxHead
  · rw [if_pos h, if_pos (hne.mp h)]
    exact ⟨rfl, rfl⟩
  · rw [if_neg h, if_neg (hne.not.mp h)]
    exact ⟨rfl, rfl⟩

/-- A byte goes to the end of the queue, and the oldest one goes if that is full. -/
theorem queue_rxPut (port : SerialPort n) (byte : UInt8) :
    (port.rxPut byte).queue = (dropOldest (n - 1)).put port.queue byte := by
  have hlength : port.queue.length = port.rxCount := window_length ..
  have hlt := port.rxCount_lt
  show _ = if port.queue.length = n - 1 then _ else _
  by_cases hfull : port.rxFull
  · have hcount := port.rxFull_iff.mp hfull
    rw [if_pos (by omega)]
    exact port.queue_rxPut_of_full byte hfull
  · have hcount := port.rxFull_iff.not.mp hfull
    rw [if_neg (by omega)]
    exact port.queue_rxPut_of_room byte hfull

/-- The first byte of the queue comes out. -/
theorem queue_rxGet (port : SerialPort n) :
    port.rxGet.1 = port.queue.head? ∧ port.rxGet.2.queue = port.queue.tail := by
  cases hqueue : port.queue with
  | nil =>
    rw [port.rxGet_of_empty hqueue]
    exact ⟨rfl, hqueue⟩
  | cons byte rest => exact port.rxGet_of_cons hqueue

end SerialPort

variable {n : Nat}

/-- The port and the plain ring do the same. -/
theorem serialQueue_ring :
    Simulates (serialQueue n) (rxRing n) fun port ring => port.ring = ring where
  put := by
    rintro port _ byte rfl
    exact port.ring_rxPut byte
  get := by
    rintro port _ rfl
    exact port.ring_rxGet
  clear := by
    rintro port _ rfl
    rfl

/-- A port with a ring of `n` cells is a queue of capacity `n - 1`. -/
theorem serialQueue_queue :
    Simulates (serialQueue n) (dropOldest (n - 1)) fun port bytes => port.queue = bytes where
  put := by
    rintro port _ byte rfl
    exact port.queue_rxPut byte
  get := by
    rintro port _ rfl
    exact port.queue_rxGet
  clear := by
    rintro port _ rfl
    exact port.queue_rxClear

/-! ## Reading -/

namespace SerialPort

/-- A read that nothing interrupts. -/
theorem readLoopAmong_alone (port : SerialPort n) (pollIn : List UInt8) (size : Nat) :
    port.readLoopAmong (fun _ => []) pollIn size = port.readLoop pollIn size := by
  induction size generalizing port pollIn with
  | zero => rfl
  | succ size ih =>
    have hrun : ((serialQueue n).run port []).2 = port := rfl
    unfold readLoopAmong readLoop
    rw [hrun]
    generalize port.rxGet = got
    obtain ⟨got, port'⟩ := got
    cases got with
    | some byte =>
      dsimp only
      rw [ih]
    | none =>
      cases pollIn with
      | nil => rfl
      | cons byte pollIn' =>
        dsimp only
        rw [ih]

/-- The operations on the ring leave the flags of a port alone. -/
theorem step_rxReady (port : SerialPort n) (op : Op UInt8) :
    ((serialQueue n).step port op).2.rxReady = port.rxReady := by
  cases op with
  | put byte => rfl
  | get =>
    show port.rxGet.2.rxReady = _
    unfold rxGet
    split <;> rfl
  | clear => rfl

/-- Bytes that come and go leave the port ready, or not. -/
theorem run_rxReady (port : SerialPort n) (ops : List (Op UInt8)) :
    ((serialQueue n).run port ops).2.rxReady = port.rxReady := by
  induction ops generalizing port with
  | nil => rfl
  | cons op ops ih => exact (ih _).trans (port.step_rxReady op)

/-- On a port with interrupt reception the loop reads from the ring only. -/
theorem readLoopAmong_ready (others : Nat → List (Op UInt8)) (port : SerialPort n)
    (pollIn : List UInt8) (size : Nat) (ready : port.rxReady = true) :
    port.readLoopAmong others pollIn size = (serialQueue n).read others size port := by
  induction size generalizing port with
  | zero => rfl
  | succ size ih =>
    have hready : ((serialQueue n).run port (others (size + 1))).2.rxGet.2.rxReady = true := by
      rw [← ready, ← port.run_rxReady (others (size + 1))]
      exact step_rxReady _ .get
    have hget (p : SerialPort n) : (serialQueue n).get p = p.rxGet := rfl
    simp only [readLoopAmong, Queue.read, hget]
    generalize ((serialQueue n).run port (others (size + 1))).2.rxGet = got at hready ⊢
    obtain ⟨got, port'⟩ := got
    cases got with
    | none => exact if_pos (.inr hready)
    | some byte =>
      have hrest := ih port' hready
      dsimp only
      rw [hrest]

end SerialPort

/-- The port is set up and receives by interrupt, and its ring is the given one. -/
structure Service.Listening (s : Service n) (id : Fin 2) (ring : RxRing) : Prop where
  hasDev : (s.ports id).hasDev = true
  prepared : (s.ports id).prepared = true
  deviceIsReady : (s.ports id).deviceIsReady = true
  ring : (s.ports id).ring = ring

/-- What a read returns and leaves, when no one else is at the ring. -/
theorem Service.read_listening {s : Service n} {id : Fin 2} {ring : RxRing}
    (h : s.Listening id ring) (pollIn : List UInt8) (size : Nat) :
    (s.read id pollIn size).1 = (ring.bytes n).take size ∧
      ((s.read id pollIn size).2.ports id).queue = (ring.bytes n).drop size := by
  obtain ⟨hasDev, prepared, deviceIsReady, rfl⟩ := h
  rw [SerialPort.ring_bytes]
  unfold Service.read
  rw [dif_pos id.isLt]
  by_cases hsize : size = 0
  · subst hsize
    rw [if_pos (.inr (.inr (.inl rfl)))]
    exact ⟨rfl, rfl⟩
  · rw [if_neg (by simp [hasDev, prepared, deviceIsReady, hsize])]
    obtain ⟨hbytes, hqueue⟩ := serialQueue_queue.read (fun _ => []) size
      (s := s.ports id) (t := (s.ports id).queue) rfl
    rw [read_alone, ← SerialPort.readLoopAmong_ready (fun _ => []) _ pollIn size
      ((s.ports id).rxReady_of_prepared prepared), SerialPort.readLoopAmong_alone] at hbytes hqueue
    exact ⟨hbytes, (congrArg SerialPort.queue (Service.setPort_self ..)).trans hqueue⟩

/-- In every run from boot the ring answers like the queue of capacity `n - 1` that drops its
oldest byte, and holds the same bytes, with both indices inside the buffer. A read of a port with
such a ring returns the longest prefix up to the size wanted; with others at the ring between its
gets it returns what a reader of the queue gets, and ends short only on an empty ring. -/
theorem rxRing_drops_oldest (positive : 0 < n) (cells : Nat → UInt8) (ops : List (Op UInt8)) :
    let ring := (rxRing n).run (RxRing.zeroed cells) ops
    let queue := (dropOldest (n - 1)).run [] ops
    (ring.1 = queue.1 ∧ ring.2.bytes n = queue.2 ∧ queue.2.length ≤ n - 1) ∧
      (ring.2.rxHead < n ∧ ring.2.rxTail < n) ∧
      ((ring.2.get n).1 = queue.2.head? ∧ ((ring.2.get n).1 = none ↔ queue.2 = [])) ∧
      (∀ (s : Service n) (id : Fin 2), s.Listening id ring.2 → ∀ pollIn size,
        (s.read id pollIn size).1 = queue.2.take size ∧
          ((s.read id pollIn size).2.ports id).queue = queue.2.drop size) ∧
      (∀ (port : SerialPort n), port.ring = ring.2 → port.rxReady = true →
        ∀ others pollIn size,
          let got := port.readLoopAmong others pollIn size
          let wanted := (dropOldest (n - 1)).read others size queue.2
          got.1 = wanted.1 ∧ got.2.queue = wanted.2 ∧
            (got.1.length < size → got.2.queue = [])) := by
  let start : SerialPort n :=
    { rxHead := ⟨0, positive⟩, rxTail := ⟨0, positive⟩, rxBuffer := cells, isCdc := false,
      rxReady := false, prepared := false, hasDev := false, deviceIsReady := false,
      rxReady_of_prepared := fun h => h }
  have hempty : start.queue = [] := start.queue_rxClear
  obtain ⟨hring, hport⟩ := serialQueue_ring.run (s := start) (t := RxRing.zeroed cells) rfl ops
  obtain ⟨hqueue, hbytes⟩ := serialQueue_queue.run (s := start) (t := []) hempty ops
  intro ring queue
  generalize hend : ((serialQueue n).run start ops).2 = port at hport hbytes
  change port.ring = ring.2 at hport
  change port.queue = queue.2 at hbytes
  have hring_bytes : ring.2.bytes n = queue.2 := by
    rw [← hport, port.ring_bytes, hbytes]
  have hget : (ring.2.get n).1 = queue.2.head? := by
    rw [← hport, ← port.ring_rxGet.1, port.queue_rxGet.1, hbytes]
  refine ⟨⟨hring.symm.trans hqueue, hring_bytes, length_run_le [] (Nat.zero_le _) ops⟩, ?_,
    ⟨hget, by rw [hget, List.head?_eq_none_iff]⟩, ?_, ?_⟩
  · rw [← hport]
    exact ⟨port.rxHead.isLt, port.rxTail.isLt⟩
  · intro s id listening pollIn size
    rw [← hring_bytes]
    exact s.read_listening listening pollIn size
  · intro port' hring' ready others pollIn size got wanted
    have hqueue' : port'.queue = queue.2 := by
      rw [← port'.ring_bytes, hring', hring_bytes]
    obtain ⟨hgot, hleft⟩ := serialQueue_queue.read others size hqueue'
    rw [← port'.readLoopAmong_ready others pollIn size ready] at hgot hleft
    refine ⟨hgot, hleft, fun short => ?_⟩
    rw [hleft]
    exact read_short others size queue.2 (by rwa [← hgot])

/-- Three bytes into a ring of three cells, and a get. -/
def overflowing : List (Op UInt8) := [.put 1, .put 2, .put 3, .get]

theorem overflowing_drops_oldest :
    0 < 3 ∧ ((rxRing 3).run (RxRing.zeroed fun _ => 0) overflowing).1 = [some 2] ∧
      ((rxRing 3).run (RxRing.zeroed fun _ => 0) overflowing).2.bytes 3 = [3] := by
  obtain ⟨⟨hanswers, hbytes, _⟩, _⟩ :=
    rxRing_drops_oldest (show 0 < 3 by decide) (fun _ => 0) overflowing
  exact ⟨by decide, hanswers.trans rfl, hbytes.trans rfl⟩

end Rtbus.Serial
