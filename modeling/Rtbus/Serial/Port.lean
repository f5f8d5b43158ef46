import Mathlib.Data.Fin.Basic
import Rtbus.Base.Circular
import Rtbus.Base.Errno

/-!
# A runtime serial port

`rtbus_serial.c` keeps one `struct rtbus_runtime_serial_port` for each UART: a receive ring with
head and tail indices, and three flags about how far the port has been brought up. The ring
operations run under the port's spin lock, so each is one step here.

The indices are `Fin n`, which is the fact the C code maintains with `% sizeof(port->rx_buffer)`.
The other invariant of the struct, that a prepared port has its receive interrupt set up, is a
field: every place that sets `prepared` has set `rx_ready` before.

`queue` is what the ring holds, oldest byte first. The three ring operations are a put that drops
the oldest byte when the ring is full, a get and a clear of that queue.
-/

namespace Rtbus.Serial

open Rtbus.Circular

/-- `struct rtbus_runtime_serial_port`, with a ring of `n` bytes. `hasDev` is `dev != NULL` and
`deviceIsReady` the answer of `device_is_ready(dev)`. -/
structure SerialPort (n : Nat) where
  rxHead : Fin n
  rxTail : Fin n
  rxBuffer : Nat → UInt8
  isCdc : Bool
  rxReady : Bool
  prepared : Bool
  hasDev : Bool
  deviceIsReady : Bool
  rxReady_of_prepared : prepared = true → rxReady = true

namespace SerialPort

variable {n : Nat}

/-- `(index + 1U) % sizeof(port->rx_buffer)`. -/
def nextIndex (i : Fin n) : Fin n := ⟨(i.val + 1) % n, Nat.mod_lt _ (Nat.zero_lt_of_lt i.isLt)⟩

/-- The next put finds the ring full. -/
def rxFull (port : SerialPort n) : Prop := nextIndex port.rxHead = port.rxTail

instance (port : SerialPort n) : Decidable port.rxFull := inferInstanceAs (Decidable (_ = _))

/-- `rtbus_runtime_serial_rx_put`. -/
def rxPut (port : SerialPort n) (byte : UInt8) : SerialPort n :=
  let nextHead := nextIndex port.rxHead
  let rxTail := if nextHead = port.rxTail then nextIndex port.rxTail else port.rxTail
  { port with
    rxTail := rxTail
    rxBuffer := Function.update port.rxBuffer port.rxHead byte
    rxHead := nextHead }

/-- `rtbus_runtime_serial_rx_clear`. -/
def rxClear (port : SerialPort n) : SerialPort n :=
  let zero : Fin n := ⟨0, Nat.zero_lt_of_lt port.rxHead.isLt⟩
  { port with rxHead := zero, rxTail := zero }

/-- `rtbus_runtime_serial_rx_get`: the byte read, if there is one. -/
def rxGet (port : SerialPort n) : Option UInt8 × SerialPort n :=
  if port.rxTail ≠ port.rxHead then
    (some (port.rxBuffer port.rxTail), { port with rxTail := nextIndex port.rxTail })
  else
    (none, port)

/-! ## The queue a ring holds -/

/-- The number of bytes in the ring. -/
def rxCount (port : SerialPort n) : Nat := (port.rxHead.val + (n - port.rxTail.val)) % n

/-- The bytes in the ring, oldest first. -/
def queue (port : SerialPort n) : List UInt8 :=
  window port.rxBuffer n port.rxTail port.rxCount

theorem rxCount_lt (port : SerialPort n) : port.rxCount < n :=
  Nat.mod_lt _ (Nat.zero_lt_of_lt port.rxHead.isLt)

/-- The head is the position just behind the queue. -/
theorem tail_add_count (port : SerialPort n) :
    (port.rxTail.val + port.rxCount) % n = port.rxHead.val := by
  have hh := port.rxHead.isLt
  have ht := port.rxTail.isLt
  unfold rxCount
  rw [Nat.add_mod_mod, show port.rxTail.val + (port.rxHead.val + (n - port.rxTail.val)) =
    port.rxHead.val + n by omega, Nat.add_mod_right, Nat.mod_eq_of_lt hh]

/-- A count below the capacity that leads from the tail to the head is the ring's count. -/
theorem rxCount_eq {port : SerialPort n} {k : Nat} (lt : k < n)
    (h : (port.rxTail.val + k) % n = port.rxHead.val) : port.rxCount = k := by
  by_contra ne
  have hlt := port.rxCount_lt
  have hc := port.tail_add_count
  rcases Nat.lt_or_gt_of_ne ne with hk | hk
  · exact mod_ne_of_lt (n := n) (a := port.rxTail + port.rxCount) (b := port.rxTail + k)
      (by omega) (by omega) (hc.trans h.symm)
  · exact mod_ne_of_lt (n := n) (a := port.rxTail + k) (b := port.rxTail + port.rxCount)
      (by omega) (by omega) (h.trans hc.symm)

/-- A full ring holds all but one of its cells' worth of bytes. -/
theorem rxFull_iff (port : SerialPort n) : port.rxFull ↔ port.rxCount + 1 = n := by
  have hlt := port.rxCount_lt
  have hc := port.tail_add_count
  have ht := port.rxTail.isLt
  unfold rxFull nextIndex
  rw [Fin.ext_iff]
  show (port.rxHead.val + 1) % n = port.rxTail.val ↔ _
  rw [← hc, Nat.mod_add_mod]
  constructor
  · intro h
    by_contra ne
    have h' : (port.rxTail.val + port.rxCount + 1) % n = port.rxTail.val % n := by
      rw [h, Nat.mod_eq_of_lt ht]
    exact mod_ne_of_lt (n := n) (a := port.rxTail) (b := port.rxTail + port.rxCount + 1)
      (by omega) (by omega) h'.symm
  · intro h
    rw [Nat.add_assoc, h, Nat.add_mod_right, Nat.mod_eq_of_lt ht]

/-- A put on a ring with room appends the byte. -/
theorem queue_rxPut_of_room (port : SerialPort n) (byte : UInt8) (room : ¬ port.rxFull) :
    (port.rxPut byte).queue = port.queue ++ [byte] := by
  have hlt := port.rxCount_lt
  have hfull := (port.rxFull_iff).not.mp room
  have hc := port.tail_add_count
  have htail : (port.rxPut byte).rxTail = port.rxTail := if_neg room
  have hcount : (port.rxPut byte).rxCount = port.rxCount + 1 := by
    apply rxCount_eq (by omega)
    rw [htail]
    show (port.rxTail.val + (port.rxCount + 1)) % n = (port.rxHead.val + 1) % n
    rw [← hc, Nat.mod_add_mod, Nat.add_assoc]
  unfold queue
  rw [hcount, htail]
  show window (Function.update port.rxBuffer port.rxHead byte) n port.rxTail _ = _
  rw [← hc]
  exact window_push port.rxBuffer n port.rxTail port.rxCount byte (by omega)

/-- A put on a full ring drops the oldest byte first. -/
theorem queue_rxPut_of_full (port : SerialPort n) (byte : UInt8) (full : port.rxFull) :
    (port.rxPut byte).queue = (port.queue ++ [byte]).tail := by
  have hlt := port.rxCount_lt
  have hfull := (port.rxFull_iff).mp full
  have hc := port.tail_add_count
  have htail : (port.rxPut byte).rxTail = nextIndex port.rxTail := if_pos full
  have hcount : (port.rxPut byte).rxCount = port.rxCount := by
    apply rxCount_eq (by omega)
    rw [htail]
    show ((port.rxTail.val + 1) % n + port.rxCount) % n = (port.rxHead.val + 1) % n
    rw [← hc, Nat.mod_add_mod, Nat.mod_add_mod, Nat.add_right_comm]
  unfold queue
  rw [hcount, htail]
  show window (Function.update port.rxBuffer port.rxHead byte) n ((port.rxTail.val + 1) % n) _ = _
  rw [window_mod, ← hc, ← window_push port.rxBuffer n port.rxTail port.rxCount byte hlt,
    window_succ, List.tail_cons]

/-- A get on an empty ring finds nothing. -/
theorem rxGet_of_empty (port : SerialPort n) (empty : port.queue = []) :
    port.rxGet = (none, port) := by
  have hcount : port.rxCount = 0 := by
    rw [← window_length port.rxBuffer n port.rxTail port.rxCount]
    exact congrArg List.length empty
  have hc := port.tail_add_count
  rw [hcount, Nat.add_zero, Nat.mod_eq_of_lt port.rxTail.isLt] at hc
  unfold rxGet
  rw [if_neg]
  exact not_not_intro (Fin.ext hc)

/-- A get on a ring that holds a byte takes the oldest one. -/
theorem rxGet_of_cons (port : SerialPort n) {byte : UInt8} {rest : List UInt8}
    (h : port.queue = byte :: rest) :
    port.rxGet.1 = some byte ∧ port.rxGet.2.queue = rest := by
  have hlt := port.rxCount_lt
  have hc := port.tail_add_count
  have ht := port.rxTail.isLt
  cases hcount : port.rxCount with
  | zero =>
    unfold queue at h
    rw [hcount] at h
    cases h
  | succ k =>
    have hne : port.rxTail ≠ port.rxHead := by
      intro heq
      rw [← heq, hcount] at hc
      rw [hcount] at hlt
      have hc' : (port.rxTail.val + (k + 1)) % n = port.rxTail.val % n := by
        rw [hc, Nat.mod_eq_of_lt ht]
      exact mod_ne_of_lt (n := n) (a := port.rxTail) (b := port.rxTail + (k + 1)) (by omega)
        (by omega) hc'.symm
    unfold queue at h
    rw [hcount, window_succ, Nat.mod_eq_of_lt ht, List.cons.injEq] at h
    obtain ⟨hbyte, hrest⟩ := h
    unfold rxGet
    rw [if_pos hne]
    refine ⟨congrArg some hbyte, ?_⟩
    have hcount' : ({ port with rxTail := nextIndex port.rxTail } : SerialPort n).rxCount = k := by
      apply rxCount_eq (by omega)
      show ((port.rxTail.val + 1) % n + k) % n = port.rxHead.val
      rw [Nat.mod_add_mod, Nat.add_right_comm, ← hc, hcount, Nat.add_assoc]
    show window port.rxBuffer n ((port.rxTail.val + 1) % n)
      ({ port with rxTail := nextIndex port.rxTail } : SerialPort n).rxCount = rest
    rw [hcount', window_mod, hrest]

/-- A clear leaves nothing. -/
theorem queue_rxClear (port : SerialPort n) : port.rxClear.queue = [] := by
  have hcount : port.rxClear.rxCount = 0 := by
    apply rxCount_eq (Nat.zero_lt_of_lt port.rxHead.isLt)
    exact Nat.zero_mod n
  unfold queue
  rw [hcount, window_zero]

end SerialPort

end Rtbus.Serial
