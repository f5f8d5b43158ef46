import Rtbus.Base.Network
import Rtbus.Ymodem.Metadata

/-!
# The uploader

`wait_ready_and_crc` and `send_ymodem` of the host are a program over the operations on its serial
port: to write, and to read until some byte has come. A call that fails ends the function. The loop
over the file is the loop of an `Agent`.

No time passes here: a wait that finds nothing waits. What is printed is left out, and with it
`saw_ready`, which decides on no more than that.
-/

namespace Rtbus.Ymodem

open Network

/-- `strstr(haystack, needle) != NULL`, for bytes that end in a zero. -/
def strstr (haystack needle : List UInt8) : Bool :=
  (haystack.takeWhile (· != 0)).tails.any needle.isPrefixOf

/-- A byte is put behind the others in a window of `size` bytes, of which the last is zero. -/
def pushWindow (size : Nat) (window : List UInt8) (byte : UInt8) : List UInt8 :=
  if window.length < size - 1 then window ++ [byte] else window.drop 1 ++ [byte]

/-- `"ERROR"`. -/
def errorText : List UInt8 := [0x45, 0x52, 0x52, 0x4f, 0x52]

/-- `wait_byte` on what there is to read: whether it returns 0, and what is left. -/
def readUntil (expected : UInt8) : List UInt8 → Option (Bool × List UInt8)
  | [] => none
  | byte :: rest =>
    if byte = expected then some (true, rest)
    else if byte = can then some (false, rest)
    else readUntil expected rest

/-- `wait_ready_and_crc` on what there is to read. -/
def readReady (window : List UInt8) : List UInt8 → Option (Bool × List UInt8)
  | [] => none
  | byte :: rest =>
    if byte = crcRequest then some (true, rest)
    else if strstr (pushWindow 96 window byte) errorText then some (false, rest)
    else readReady (pushWindow 96 window byte) rest

/-- What the uploader calls. -/
inductive HostOp
  | serialWriteAll (bytes : List UInt8)
  | waitByte (expected : UInt8)
  | waitReadyAndCrc

/-- The surroundings of the uploader. Each call answers whether it has returned 0. -/
def host : Interface := ⟨HostOp, fun _ => Bool⟩

/-- A program of the uploader. -/
abbrev Send (ρ : Type) := Prog host ρ

/-- `serial_write_all`. -/
def serialWriteAll (bytes : List UInt8) : Send Bool :=
  Prog.perform (I := host) (.serialWriteAll bytes)

/-- `wait_byte`. -/
def waitByte (expected : UInt8) : Send Bool := Prog.perform (I := host) (.waitByte expected)

/-- `wait_ready_and_crc`. -/
def waitReadyAndCrc : Send Bool := Prog.perform (I := host) .waitReadyAndCrc

/-- Calls one after another, up to one that fails. -/
def inTurn : List (Send Bool) → Send Bool
  | [] => pure true
  | call :: calls => do if ← call then inTurn calls else pure false

/-- `send_packet`: the bytes of `sendPacket` in three pieces. -/
def putPacket (start blockNo : UInt8) (data : List UInt8) : Send Bool :=
  inTurn [serialWriteAll [start, blockNo, ~~~ blockNo], serialWriteAll data,
    serialWriteAll (crcBytes data)]

/-- The variables of `send_ymodem`. -/
structure SendLocals where
  offset : Nat
  blockNo : UInt8

/-- A turn goes on, or the function returns. -/
abbrev SendOutcome := SendLocals ⊕ Bool

variable (path file : List UInt8)

/-- `send_ymodem` up to its loop. -/
def sendMetadata : Send SendOutcome := do
  if ← inTurn [putPacket soh 0 (metadataBlock path file.length), waitByte ack, waitByte crcRequest]
  then pure (.inl ⟨0, 1⟩) else pure (.inr false)

/-- The data block at an offset, and how many bytes of it are of the file. -/
def dataBlock (offset : Nat) : Nat × List UInt8 :=
  let chunk := min (file.length - offset) block1024
  (chunk, (file.drop offset).take chunk ++ List.replicate (block1024 - chunk) 0x1a)

/-- The loop of `send_ymodem`, and what follows it. -/
def sendTurn (v : SendLocals) : Send SendOutcome :=
  if v.offset < file.length then do
    let block := dataBlock file v.offset
    if ← inTurn [putPacket stx v.blockNo block.2, waitByte ack]
    then pure (.inl ⟨v.offset + block.1, v.blockNo + 1⟩) else pure (.inr false)
  else do
    let sent ← inTurn [serialWriteAll [eot], waitByte nak, serialWriteAll [eot], waitByte ack,
      waitByte crcRequest, putPacket soh 0 (List.replicate block128 0), waitByte ack]
    pure (.inr sent)

/-- The uploader, from the point at which it has written the command. -/
def upload : Send SendOutcome := do
  if ← waitReadyAndCrc then sendMetadata path file else pure (.inr false)

/-- The uploader at a link: what it writes is on its way, and it reads what has come. -/
def uploader : Agent host SendLocals Bool Unit UInt8 UInt8 where
  pause _ _ := none
  act
    | .serialWriteAll bytes, s, i => some (true, s, i, bytes)
    | .waitByte expected, s, i => (readUntil expected i).map fun r => (r.1, s, r.2, [])
    | .waitReadyAndCrc, s, i => (readReady [] i).map fun r => (r.1, s, r.2, [])
  body := sendTurn file

/-! ## Waiting -/

section Waiting

variable {i i' : List UInt8} {answer : Bool}

/-- What was found does not depend on what comes behind it. -/
theorem readUntil_append {expected : UInt8} (h : readUntil expected i = some (answer, i'))
    (more : List UInt8) : readUntil expected (i ++ more) = some (answer, i' ++ more) := by
  induction i with
  | nil => cases h
  | cons byte rest ih =>
    rw [List.cons_append]
    unfold readUntil at h ⊢
    split at h
    · rename_i hexpected
      rw [if_pos hexpected]
      cases h
      rfl
    · rename_i hexpected
      rw [if_neg hexpected]
      split at h
      · rename_i hcan
        rw [if_pos hcan]
        cases h
        rfl
      · rename_i hcan
        rw [if_neg hcan]
        exact ih h

theorem readReady_append {window : List UInt8} (h : readReady window i = some (answer, i'))
    (more : List UInt8) : readReady window (i ++ more) = some (answer, i' ++ more) := by
  induction i generalizing window with
  | nil => cases h
  | cons byte rest ih =>
    rw [List.cons_append]
    unfold readReady at h ⊢
    split at h
    · rename_i hready
      rw [if_pos hready]
      cases h
      rfl
    · rename_i hready
      rw [if_neg hready]
      split at h
      · rename_i herror
        rw [if_pos herror]
        cases h
        rfl
      · rename_i herror
        rw [if_neg herror]
        exact ih h

/-- Bytes that are neither the one expected nor `YMODEM_CAN` are passed over. -/
theorem readUntil_skip {expected other : UInt8} (h : other ≠ expected) (hcan : other ≠ can)
    (n : Nat) (i : List UInt8) :
    readUntil expected (List.replicate n other ++ i) = readUntil expected i := by
  induction n with
  | zero => rfl
  | succ n ih =>
    rw [List.replicate_succ, List.cons_append, readUntil, if_neg h, if_neg hcan]
    exact ih

theorem uploader_monotone : (uploader file).Monotone := by
  intro o s i a s' i' out h more
  cases o with
  | serialWriteAll bytes =>
    cases h
    rfl
  | waitByte expected =>
    obtain ⟨⟨answer, left⟩, hread, heq⟩ := Option.map_eq_some_iff.mp h
    cases heq
    show (readUntil expected (i ++ more)).map _ = _
    rw [readUntil_append hread more]
    rfl
  | waitReadyAndCrc =>
    obtain ⟨⟨answer, left⟩, hread, heq⟩ := Option.map_eq_some_iff.mp h
    cases heq
    show (readReady [] (i ++ more)).map _ = _
    rw [readReady_append hread more]
    rfl

end Waiting

/-! ## What the calls do at the link -/

section Calls

variable {i i' out out' : List UInt8}

theorem run_serialWriteAll (bytes : List UInt8) : (serialWriteAll bytes).run (uploader file).server
    ((), i, out) = some (true, (), i, out ++ bytes) := rfl

theorem run_putPacket (start blockNo : UInt8) (data : List UInt8) :
    (putPacket start blockNo data).run (uploader file).server ((), i, out) =
      some (true, (), i, out ++ sendPacket start blockNo data) := by
  have hbytes : out ++ [start, blockNo, ~~~ blockNo] ++ data ++ crcBytes data =
      out ++ sendPacket start blockNo data := by
    unfold sendPacket
    simp
  rw [← hbytes]
  rfl

theorem run_waitByte {expected : UInt8} {answer : Bool} {j : List UInt8}
    (h : readUntil expected i = some (answer, j)) :
    (waitByte expected).run (uploader file).server ((), i, out) = some (answer, (), j, out) := by
  have hact : (uploader file).server (.waitByte expected) ((), i, out) =
      some (answer, (), j, out) := by
    show ((readUntil expected i).map _).map _ = _
    rw [h]
    show some (answer, (), j, out ++ []) = _
    rw [List.append_nil]
  exact (Prog.run_perform (I := host) _ _).trans hact

variable {τ : Type} {R : Party τ UInt8 UInt8} {t : τ} {calls : List (Send Bool)} {call : Send Bool}

/-- A call succeeds, and the next one follows. -/
theorem call_succeeds (h : call.run (uploader file).server ((), i, out) = some (true, (), i', out'))
    (k : Bool → Send SendOutcome) : Reaches (Step (uploader file).party R)
      ⟨(inTurn (call :: calls) >>= k, ()), t, i, out⟩ ⟨(inTurn calls >>= k, ()), t, i', out'⟩ := by
  rw [show inTurn (call :: calls) >>= k = call >>= fun ok =>
    (if ok = true then inTurn calls else pure false) >>= k from bind_assoc ..]
  exact Agent.reaches_left h _

/-- A call fails. -/
theorem call_fails (h : call.run (uploader file).server ((), i, out) = some (false, (), i', out'))
    (k : Bool → Send SendOutcome) : Reaches (Step (uploader file).party R)
      ⟨(inTurn (call :: calls) >>= k, ()), t, i, out⟩ ⟨(k false, ()), t, i', out'⟩ := by
  rw [show inTurn (call :: calls) >>= k = call >>= fun ok =>
    (if ok = true then inTurn calls else pure false) >>= k from bind_assoc ..]
  exact Agent.reaches_left h _

end Calls

end Rtbus.Ymodem
