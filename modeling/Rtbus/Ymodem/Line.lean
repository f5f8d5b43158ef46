import Rtbus.Base.Errno
import Rtbus.Ymodem.Packet

/-!
# The serial line and its clock

The receiver reads from a line on which bytes arrive while it looks at the clock, reads and sleeps.
`coming` is what will pass before each of these calls: how much time, and which bytes arrive in it.
Any timing of a finite stream is a list of such moments; behind the last of them the line is silent
and time passes in the sleeps alone.

The three loops that wait for bytes are given a number of turns that is enough: with more of them
they do the same. What they take from the line is the beginning of what was still to be read.
-/

namespace Rtbus.Ymodem

/-- What passes between two calls. -/
structure Moment where
  elapsed : Nat
  bytes : List UInt8

/-- The line: the uptime in milliseconds, the bytes that were received and not read, what is still
to come, and what was written to it. -/
structure Line where
  now : Nat
  ready : List UInt8
  coming : List Moment
  sent : List UInt8

namespace Line

/-- Time passes. -/
def pass (l : Line) : Line :=
  match l.coming with
  | [] => l
  | moment :: coming =>
    { l with now := l.now + moment.elapsed, ready := l.ready ++ moment.bytes, coming := coming }

/-- `k_sleep`. -/
def sleep (ms : Nat) (l : Line) : Line := { l.pass with now := l.pass.now + ms }

/-- `rtbus_runtime_serial_read` of at most `len` bytes: those it returns. -/
def read (len : Nat) (l : Line) : List UInt8 := l.pass.ready.take len

/-- The line behind it. -/
def behindRead (len : Nat) (l : Line) : Line := { l.pass with ready := l.pass.ready.drop len }

/-- `rtbus_runtime_serial_write`. -/
def write (bytes : List UInt8) (l : Line) : Line := { l with sent := l.sent ++ bytes }

/-- `ymodem_put`. -/
def put (byte : UInt8) (l : Line) : Line := l.write [byte]

/-- `rtbus_runtime_serial_flush_rx`. -/
def flushRx (l : Line) : Line := { l.pass with ready := [] }

/-- The bytes that are still to be read. -/
def stream (l : Line) : List UInt8 := l.ready ++ l.coming.flatMap Moment.bytes

end Line

/-- `YMODEM_START_TIMEOUT_MS`. -/
def startTimeoutMs : Nat := 30000
/-- `YMODEM_BYTE_TIMEOUT_MS`. -/
def byteTimeoutMs : Nat := 3000
/-- `YMODEM_READY_INTERVAL_MS`. -/
def readyIntervalMs : Nat := 1000

/-- The loop of `ymodem_read_byte`. -/
def readByteLoop (deadline : Nat) : Nat → Line → Line × Except Errno UInt8
  | 0, l => (l, .error .ETIMEDOUT)
  | turns + 1, l =>
    let l := l.pass
    if l.now < deadline then
      match l.read 1 with
      | byte :: _ => (l.behindRead 1, .ok byte)
      | [] => readByteLoop deadline turns ((l.behindRead 1).sleep 1)
    else (l, .error .ETIMEDOUT)

/-- `ymodem_read_byte`. -/
def ymodemReadByte (timeoutMs : Nat) (l : Line) : Line × Except Errno UInt8 :=
  readByteLoop (l.pass.now + timeoutMs) (timeoutMs + 1) l.pass

/-- The loop of `ymodem_read_exact`. -/
def readExactLoop (len timeoutMs : Nat) :
    Nat → Nat → List UInt8 → Line → Line × Except Errno (List UInt8)
  | 0, _, _, l => (l, .error .ETIMEDOUT)
  | turns + 1, deadline, received, l =>
    if received.length < len then
      match l.read (len - received.length) with
      | [] =>
        let l := (l.behindRead (len - received.length)).pass
        if deadline ≤ l.now then (l, .error .ETIMEDOUT)
        else readExactLoop len timeoutMs turns deadline received (l.sleep 1)
      | got =>
        let l := (l.behindRead (len - received.length)).pass
        readExactLoop len timeoutMs turns (l.now + timeoutMs) (received ++ got) l
    else (l, .ok received)

/-- `ymodem_read_exact`. -/
def ymodemReadExact (len timeoutMs : Nat) (l : Line) : Line × Except Errno (List UInt8) :=
  readExactLoop len timeoutMs ((len + 1) * (timeoutMs + 2)) (l.pass.now + timeoutMs) [] l.pass

/-- `ymodem_wait_header` asks for a packet if it is time: the line, and when to ask next. -/
def askForPacket (nextReady : Nat) (l : Line) : Line × Nat :=
  if nextReady ≤ l.pass.now then
    ((l.pass.put crcRequest).pass, (l.pass.put crcRequest).pass.now + readyIntervalMs)
  else (l.pass, nextReady)

/-- The loop of `ymodem_wait_header`. -/
def waitHeaderLoop (deadline : Nat) : Nat → Nat → Line → Line × Except Errno UInt8
  | 0, _, l => (l, .error .ETIMEDOUT)
  | turns + 1, nextReady, l =>
    let l := l.pass
    if l.now < deadline then
      let asked := askForPacket nextReady l
      match asked.1.read 1 with
      | byte :: _ => (asked.1.behindRead 1, .ok byte)
      | [] => waitHeaderLoop deadline turns asked.2 ((asked.1.behindRead 1).sleep 1)
    else (l, .error .ETIMEDOUT)

/-- `ymodem_wait_header`. -/
def ymodemWaitHeader (l : Line) : Line × Except Errno UInt8 :=
  waitHeaderLoop (l.pass.now + startTimeoutMs) (startTimeoutMs + 1) 0 l.pass

namespace Line

variable (l : Line)

/-- Time that passes takes nothing from the stream. -/
@[simp] theorem stream_pass : l.pass.stream = l.stream := by
  unfold pass stream
  split
  · rfl
  · rename_i hcoming
    rw [hcoming, List.flatMap_cons, List.append_assoc]

/-- Nor does it send anything. -/
@[simp] theorem sent_pass : l.pass.sent = l.sent := by
  unfold pass
  split <;> rfl

/-- It does not go back. -/
theorem now_le_pass : l.now ≤ l.pass.now := by
  unfold pass
  split
  · exact Nat.le_refl _
  · exact Nat.le_add_right _ _

/-- Sleeping takes nothing from the stream. -/
@[simp] theorem stream_sleep (ms : Nat) : (l.sleep ms).stream = l.stream := l.stream_pass

/-- Nor does it send anything. -/
@[simp] theorem sent_sleep (ms : Nat) : (l.sleep ms).sent = l.sent := l.sent_pass

/-- It takes at least the time that it is asked for. -/
theorem now_add_le_sleep (ms : Nat) : l.now + ms ≤ (l.sleep ms).now :=
  Nat.add_le_add_right l.now_le_pass ms

/-- Reading sends nothing. -/
@[simp] theorem sent_behindRead (len : Nat) : (l.behindRead len).sent = l.sent := l.sent_pass

/-- Nor does it take time back. -/
theorem now_le_behindRead (len : Nat) : l.now ≤ (l.behindRead len).now := l.now_le_pass

/-- What a read returns comes first on the line. -/
theorem stream_read (len : Nat) : l.stream = l.read len ++ (l.behindRead len).stream := by
  rw [← l.stream_pass]
  show l.pass.ready ++ l.pass.coming.flatMap Moment.bytes =
    l.pass.ready.take len ++ (l.pass.ready.drop len ++ l.pass.coming.flatMap Moment.bytes)
  rw [← List.append_assoc, List.take_append_drop]

/-- A read returns no more than it is asked for. -/
theorem length_read_le (len : Nat) : (l.read len).length ≤ len := List.length_take_le len _

variable {l} in
/-- A byte that is read was next. -/
theorem stream_of_read_byte {byte : UInt8} {more : List UInt8} (h : l.read 1 = byte :: more) :
    l.stream = byte :: (l.behindRead 1).stream := by
  have hlen := l.length_read_le 1
  rw [h, List.length_cons] at hlen
  rw [l.stream_read 1, h, List.length_eq_zero_iff.mp (show more.length = 0 by omega)]
  rfl

variable {l} in
/-- Nothing is read, and nothing is lost. -/
theorem stream_of_read_nil {len : Nat} (h : l.read len = []) : (l.behindRead len).stream = l.stream := by
  rw [l.stream_read len, h, List.nil_append]

/-- Writing takes nothing from the stream. -/
@[simp] theorem stream_write (bytes : List UInt8) : (l.write bytes).stream = l.stream := rfl

/-- Nor does writing one byte. -/
@[simp] theorem stream_put (byte : UInt8) : (l.put byte).stream = l.stream := rfl

/-- What is flushed was next on the line. -/
theorem stream_flushRx : ∃ lost, l.stream = lost ++ l.flushRx.stream :=
  ⟨l.pass.ready, by rw [← l.stream_pass]; rfl⟩

end Line

/-! ## What the loops take -/

/-- A byte that was read was next on the line, and none is lost if there was none in time. -/
theorem readByteLoop_spec (deadline turns : Nat) (l : Line) : ∃ l' r,
    readByteLoop deadline turns l = (l', r) ∧ l'.sent = l.sent ∧
      (∀ byte, r = .ok byte → l.stream = byte :: l'.stream) ∧
      (∀ e, r = .error e → l'.stream = l.stream) := by
  induction turns generalizing l with
  | zero => exact ⟨l, _, rfl, rfl, fun _ h => (by cases h), fun _ _ => rfl⟩
  | succ turns ih =>
    unfold readByteLoop
    dsimp only
    by_cases hnow : l.pass.now < deadline
    · rw [if_pos hnow]
      cases hgot : l.pass.read 1 with
      | nil =>
        obtain ⟨l', r, hloop, hsent, hok, herr⟩ := ih ((l.pass.behindRead 1).sleep 1)
        rw [Line.stream_sleep, Line.stream_of_read_nil hgot, Line.stream_pass] at hok herr
        simp only [Line.sent_sleep, Line.sent_behindRead, Line.sent_pass] at hsent
        exact ⟨l', r, hloop, hsent, hok, herr⟩
      | cons byte more =>
        refine ⟨_, _, rfl, by simp, fun b h => ?_, fun _ h => (by cases h)⟩
        cases h
        rw [← Line.stream_of_read_byte hgot, Line.stream_pass]
    · rw [if_neg hnow]
      exact ⟨_, _, rfl, by simp, fun _ h => (by cases h), fun _ _ => l.stream_pass⟩

/-- A byte that is read is the next of the stream; a read that fails takes none, and neither sends.
-/
theorem ymodemReadByte_spec (timeoutMs : Nat) (l : Line) : ∃ l' r,
    ymodemReadByte timeoutMs l = (l', r) ∧ l'.sent = l.sent ∧
      (∀ byte, r = .ok byte → l.stream = byte :: l'.stream) ∧
      (∀ e, r = .error e → l'.stream = l.stream) := by
  have h := readByteLoop_spec (l.pass.now + timeoutMs) (timeoutMs + 1) l.pass
  rwa [l.stream_pass, l.sent_pass] at h

/-- The bytes that were read came next; what was read of them is lost if the others are late. -/
theorem readExactLoop_spec (len timeoutMs turns deadline : Nat) (received : List UInt8)
    (room : received.length ≤ len) (l : Line) : ∃ l' r,
    readExactLoop len timeoutMs turns deadline received l = (l', r) ∧ l'.sent = l.sent ∧
      (∀ bytes, r = .ok bytes → bytes.length = len ∧ received ++ l.stream = bytes ++ l'.stream) ∧
      (∀ e, r = .error e → ∃ lost, l.stream = lost ++ l'.stream) := by
  induction turns generalizing deadline received l with
  | zero => exact ⟨l, _, rfl, rfl, fun _ h => (by cases h), fun _ _ => ⟨[], rfl⟩⟩
  | succ turns ih =>
    unfold readExactLoop
    by_cases hmore : received.length < len
    · rw [if_pos hmore]
      have hread := l.stream_read (len - received.length)
      have hlen := l.length_read_le (len - received.length)
      cases hgot : l.read (len - received.length) with
      | nil =>
        rw [hgot, List.nil_append] at hread
        dsimp only
        split
        · exact ⟨_, _, rfl, by simp, fun _ h => (by cases h),
            fun _ _ => ⟨[], by rw [Line.stream_pass, hread]; rfl⟩⟩
        · obtain ⟨l', r, hloop, hsent, hok, herr⟩ := ih deadline received room
            ((l.behindRead (len - received.length)).pass.sleep 1)
          rw [Line.stream_sleep, Line.stream_pass, ← hread] at hok herr
          simp only [Line.sent_sleep, Line.sent_behindRead, Line.sent_pass] at hsent
          exact ⟨l', r, hloop, hsent, hok, herr⟩
      | cons byte more =>
        rw [hgot] at hread hlen
        obtain ⟨l', r, hloop, hsent, hok, herr⟩ := ih
          ((l.behindRead (len - received.length)).pass.now + timeoutMs) (received ++ byte :: more)
          (by rw [List.length_append]; omega) (l.behindRead (len - received.length)).pass
        rw [Line.stream_pass] at hok herr
        simp only [Line.sent_behindRead, Line.sent_pass] at hsent
        refine ⟨l', r, hloop, hsent, fun bytes h => ?_, fun e h => ?_⟩
        · rw [hread, ← List.append_assoc]
          exact hok bytes h
        · obtain ⟨lost, hlost⟩ := herr e h
          exact ⟨byte :: more ++ lost, by rw [hread, hlost, List.append_assoc]⟩
    · rw [if_neg hmore]
      refine ⟨l, _, rfl, rfl, fun bytes h => ?_, fun _ h => (by cases h)⟩
      cases h
      exact ⟨Nat.le_antisymm room (Nat.not_lt.mp hmore), rfl⟩

/-- Bytes that are read are the next of the stream, as many as were asked for; a read that fails has
lost what it had read. -/
theorem ymodemReadExact_spec (len timeoutMs : Nat) (l : Line) : ∃ l' r,
    ymodemReadExact len timeoutMs l = (l', r) ∧ l'.sent = l.sent ∧
      (∀ bytes, r = .ok bytes → bytes.length = len ∧ l.stream = bytes ++ l'.stream) ∧
      (∀ e, r = .error e → ∃ lost, l.stream = lost ++ l'.stream) := by
  have h := readExactLoop_spec len timeoutMs ((len + 1) * (timeoutMs + 2))
    (l.pass.now + timeoutMs) [] (Nat.zero_le _) l.pass
  rwa [l.stream_pass, l.sent_pass] at h

/-- Asking for a packet takes nothing from the stream. -/
theorem askForPacket_spec (nextReady : Nat) (l : Line) :
    (askForPacket nextReady l).1.stream = l.stream ∧ l.now ≤ (askForPacket nextReady l).1.now := by
  unfold askForPacket
  split
  · refine ⟨by simp, Nat.le_trans l.now_le_pass ?_⟩
    exact (l.pass.put crcRequest).now_le_pass
  · exact ⟨l.stream_pass, l.now_le_pass⟩

/-- A header is the next byte of the stream, and none is lost when none comes. -/
theorem waitHeaderLoop_spec (deadline turns nextReady : Nat) (l : Line) : ∃ l' r,
    waitHeaderLoop deadline turns nextReady l = (l', r) ∧
      (∀ byte, r = .ok byte → l.stream = byte :: l'.stream) ∧
      (∀ e, r = .error e → l'.stream = l.stream) := by
  induction turns generalizing nextReady l with
  | zero => exact ⟨l, _, rfl, fun _ h => (by cases h), fun _ _ => rfl⟩
  | succ turns ih =>
    unfold waitHeaderLoop
    dsimp only
    have hasked := (askForPacket_spec nextReady l.pass).1
    rw [l.stream_pass] at hasked
    by_cases hnow : l.pass.now < deadline
    · rw [if_pos hnow]
      cases hgot : (askForPacket nextReady l.pass).1.read 1 with
      | nil =>
        obtain ⟨l', r, hloop, hok, herr⟩ := ih (askForPacket nextReady l.pass).2
          (((askForPacket nextReady l.pass).1.behindRead 1).sleep 1)
        rw [Line.stream_sleep, Line.stream_of_read_nil hgot, hasked] at hok herr
        exact ⟨l', r, hloop, hok, herr⟩
      | cons byte more =>
        refine ⟨_, _, rfl, fun b h => ?_, fun _ h => (by cases h)⟩
        cases h
        rw [← Line.stream_of_read_byte hgot, hasked]
    · rw [if_neg hnow]
      exact ⟨_, _, rfl, fun _ h => (by cases h), fun _ _ => l.stream_pass⟩

/-- So it is for the whole wait. -/
theorem ymodemWaitHeader_spec (l : Line) : ∃ l' r, ymodemWaitHeader l = (l', r) ∧
    (∀ byte, r = .ok byte → l.stream = byte :: l'.stream) ∧
    (∀ e, r = .error e → l'.stream = l.stream) := by
  have h := waitHeaderLoop_spec (l.pass.now + startTimeoutMs) (startTimeoutMs + 1) 0 l.pass
  rwa [l.stream_pass] at h

/-- It asks with `C`, once or not at all. -/
theorem askForPacket_sent (nextReady : Nat) (l : Line) : ∃ k,
    (askForPacket nextReady l).1.sent = l.sent ++ List.replicate k crcRequest := by
  unfold askForPacket
  split
  · refine ⟨1, ?_⟩
    dsimp only
    rw [Line.sent_pass]
    show l.pass.sent ++ [crcRequest] = _
    rw [l.sent_pass]
    rfl
  · exact ⟨0, by simp⟩

/-- While it waits for a header, the receiver says nothing but that it waits. -/
theorem waitHeaderLoop_sent (deadline turns nextReady : Nat) (l : Line) : ∃ k,
    (waitHeaderLoop deadline turns nextReady l).1.sent = l.sent ++ List.replicate k crcRequest := by
  induction turns generalizing nextReady l with
  | zero => exact ⟨0, (List.append_nil _).symm⟩
  | succ turns ih =>
    unfold waitHeaderLoop
    dsimp only
    obtain ⟨k, hk⟩ := askForPacket_sent nextReady l.pass
    rw [l.sent_pass] at hk
    by_cases hnow : l.pass.now < deadline
    · rw [if_pos hnow]
      cases hgot : (askForPacket nextReady l.pass).1.read 1 with
      | nil =>
        obtain ⟨k', hk'⟩ := ih (askForPacket nextReady l.pass).2
          (((askForPacket nextReady l.pass).1.behindRead 1).sleep 1)
        refine ⟨k + k', ?_⟩
        dsimp only
        rw [hk', Line.sent_sleep, Line.sent_behindRead, hk, List.append_assoc,
          List.replicate_append_replicate]
      | cons byte more =>
        refine ⟨k, ?_⟩
        dsimp only
        rw [Line.sent_behindRead, hk]
    · rw [if_neg hnow]
      exact ⟨0, by simp⟩

/-- A wait sends nothing else. -/
theorem ymodemWaitHeader_sent (l : Line) : ∃ k,
    (ymodemWaitHeader l).1.sent = l.sent ++ List.replicate k crcRequest := by
  have h := waitHeaderLoop_sent (l.pass.now + startTimeoutMs) (startTimeoutMs + 1) 0 l.pass
  rwa [l.sent_pass] at h

/-! ## The turns are enough -/

/-- Each turn sleeps, so the turns that `ymodem_read_byte` is given last until its deadline. -/
theorem readByteLoop_enough {deadline turns : Nat} (more : Nat) {l : Line}
    (enough : 0 < turns ∧ deadline < l.now + turns) :
    readByteLoop deadline (turns + more) l = readByteLoop deadline turns l := by
  induction turns generalizing l with
  | zero => omega
  | succ turns ih =>
    rw [show turns + 1 + more = turns + more + 1 by omega]
    unfold readByteLoop
    dsimp only
    by_cases hnow : l.pass.now < deadline
    · rw [if_pos hnow, if_pos hnow]
      cases hgot : l.pass.read 1 with
      | cons byte rest => rfl
      | nil =>
        have hpass := l.now_le_pass
        have hread := l.pass.now_le_behindRead 1
        have hsleep := (l.pass.behindRead 1).now_add_le_sleep 1
        exact ih (by omega)
    · rw [if_neg hnow, if_neg hnow]

/-- More turns than the model gives the loop change nothing. -/
theorem ymodemReadByte_enough (timeoutMs more : Nat) (l : Line) :
    readByteLoop (l.pass.now + timeoutMs) (timeoutMs + 1 + more) l.pass =
      ymodemReadByte timeoutMs l :=
  readByteLoop_enough more (by omega)

/-- The same of `ymodem_wait_header`. -/
theorem waitHeaderLoop_enough {deadline turns : Nat} (more nextReady : Nat) {l : Line}
    (enough : 0 < turns ∧ deadline < l.now + turns) :
    waitHeaderLoop deadline (turns + more) nextReady l =
      waitHeaderLoop deadline turns nextReady l := by
  induction turns generalizing nextReady l with
  | zero => omega
  | succ turns ih =>
    rw [show turns + 1 + more = turns + more + 1 by omega]
    unfold waitHeaderLoop
    dsimp only
    by_cases hnow : l.pass.now < deadline
    · rw [if_pos hnow, if_pos hnow]
      cases hgot : (askForPacket nextReady l.pass).1.read 1 with
      | cons byte rest => rfl
      | nil =>
        have hpass := l.now_le_pass
        have hasked := (askForPacket_spec nextReady l.pass).2
        have hread := (askForPacket nextReady l.pass).1.now_le_behindRead 1
        have hsleep := ((askForPacket nextReady l.pass).1.behindRead 1).now_add_le_sleep 1
        exact ih _ (by omega)
    · rw [if_neg hnow, if_neg hnow]

/-- Nor do they for the wait. -/
theorem ymodemWaitHeader_enough (more : Nat) (l : Line) :
    waitHeaderLoop (l.pass.now + startTimeoutMs) (startTimeoutMs + 1 + more) 0 l.pass =
      ymodemWaitHeader l :=
  waitHeaderLoop_enough more 0 (by omega)

/-- Each turn of `ymodem_read_exact` reads a byte or sleeps, and each byte moves the deadline. -/
theorem readExactLoop_enough {len timeoutMs turns : Nat} (more deadline : Nat)
    {received : List UInt8} {l : Line} (room : received.length ≤ len)
    (early : deadline ≤ l.now + timeoutMs)
    (enough : (len - received.length) * (timeoutMs + 2) + (deadline - l.now) + 1 ≤ turns) :
    readExactLoop len timeoutMs (turns + more) deadline received l =
      readExactLoop len timeoutMs turns deadline received l := by
  induction turns generalizing deadline received l with
  | zero => omega
  | succ turns ih =>
    rw [show turns + 1 + more = turns + more + 1 by omega]
    unfold readExactLoop
    by_cases hmore : received.length < len
    · rw [if_pos hmore, if_pos hmore]
      have hlen := l.length_read_le (len - received.length)
      have hread := l.now_le_behindRead (len - received.length)
      have hpass := (l.behindRead (len - received.length)).now_le_pass
      cases hgot : l.read (len - received.length) with
      | nil =>
        have hsleep := (l.behindRead (len - received.length)).pass.now_add_le_sleep 1
        dsimp only
        split
        · rfl
        · exact ih deadline room (by omega) (by omega)
      | cons byte rest =>
        rw [hgot, List.length_cons] at hlen
        refine ih _ (by rw [List.length_append, List.length_cons]; omega) (Nat.le_refl _) ?_
        rw [List.length_append, List.length_cons, Nat.add_sub_cancel_left]
        obtain ⟨k, hk⟩ : ∃ k, len - received.length = rest.length + 1 + k :=
          ⟨len - received.length - (rest.length + 1), by omega⟩
        have hmul : (rest.length + 1 + k) * (timeoutMs + 2) =
            rest.length * (timeoutMs + 2) + (timeoutMs + 2) + k * (timeoutMs + 2) := by
          rw [Nat.add_mul, Nat.succ_mul]
        rw [hk, hmul] at enough
        rw [show len - (received.length + (rest.length + 1)) = k by omega]
        omega
    · rw [if_neg hmore, if_neg hmore]

/-- Nor for a read of many bytes. -/
theorem ymodemReadExact_enough (len timeoutMs more : Nat) (l : Line) :
    readExactLoop len timeoutMs ((len + 1) * (timeoutMs + 2) + more) (l.pass.now + timeoutMs) []
      l.pass = ymodemReadExact len timeoutMs l := by
  refine readExactLoop_enough more _ (Nat.zero_le _) (Nat.le_refl _) ?_
  rw [Nat.add_sub_cancel_left, Nat.succ_mul]
  show len * (timeoutMs + 2) + timeoutMs + 1 ≤ _
  omega

end Rtbus.Ymodem
