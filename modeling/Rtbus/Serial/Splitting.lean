import Mathlib.Data.List.TakeWhile
import Rtbus.Serial.Transparency

/-!
# How a stream on port 0 is split

`scan` says what the control lines of a stream are: it goes over the stream from the left, and at the
start of a line an `@` starts a control line that goes to the next terminator. `port0_split` says
that the router does the same one byte at a time, in whatever pieces the stream arrives: bytes
outside go to the ring, and the control lines that fit the buffer are submitted.
-/

namespace Rtbus.Serial

/-- The bytes that end a line. -/
def isTerminator (byte : UInt8) : Bool := byte = cr ∨ byte = lf

/-- What a stream is split into: the bytes outside of control lines, and the text of the control lines
that a terminator has completed. -/
structure Splitting where
  outside : List UInt8
  completed : List (List UInt8)

/-- The splitting of a stream that starts at the start of a line, or not. -/
def scan (lineStart : Bool) : List UInt8 → Splitting
  | [] => ⟨[], []⟩
  | byte :: rest =>
    if lineStart = true ∧ byte = at_ then
      match _h : rest.dropWhile (!isTerminator ·) with
      | [] => ⟨[], []⟩
      | _terminator :: more =>
        let split := scan true more
        ⟨split.outside, (byte :: rest.takeWhile (!isTerminator ·)) :: split.completed⟩
    else
      let split := scan (isTerminator byte) rest
      ⟨byte :: split.outside, split.completed⟩
termination_by stream => stream.length
decreasing_by
  · have hle := (List.dropWhile_suffix (l := rest) (!isTerminator ·)).length_le
    rw [_h, List.length_cons] at hle
    rw [List.length_cons]
    omega
  · exact Nat.lt_succ_self _

/-- What is submitted for a control line: the text and a line feed, or nothing. -/
def submission (text : List UInt8) : List UInt8 :=
  if text.length ≤ cliLineMax - 1 then text ++ [lf] else []

theorem take_take_append (n : Nat) (xs ys : List UInt8) :
    (xs.take n ++ ys).take n = (xs ++ ys).take n := by
  rw [List.take_append, List.take_append, List.take_take, Nat.min_self, List.length_take]
  congr 2
  omega

namespace Router

/-- The bytes that are submitted to the command line while a stream is received. -/
def submitted (r : Router) : List UInt8 → List UInt8
  | [] => []
  | byte :: rest =>
    let routed := r.routePort0Byte byte
    routed.submitted ++ routed.router.submitted rest

theorem submitted_append (r : Router) (xs ys : List UInt8) :
    r.submitted (xs ++ ys) = r.submitted xs ++ (r.after xs).submitted ys := by
  induction xs generalizing r with
  | nil => rfl
  | cons x xs ih =>
    simp only [List.cons_append, submitted, after]
    rw [ih, List.append_assoc]

/-- A byte on a control line that does not end it. -/
theorem route_text {r : Router} (active : r.controlActive = true)
    (short : r.controlLine.length ≤ cliLineMax - 1) {byte : UInt8} (h : isTerminator byte = false) :
    r.routePort0Byte byte =
      { forward := false, submitted := [],
        router := { r with
          controlLine := (r.controlLine ++ [byte]).take (cliLineMax - 1)
          controlOverflow := r.controlOverflow ||
            decide (cliLineMax - 1 < r.controlLine.length + 1) } } := by
  unfold routePort0Byte
  rw [if_pos active, if_neg (of_decide_eq_false h)]
  split
  · next hroom =>
    rw [List.take_of_length_le (by rw [List.length_append]; exact hroom),
      decide_eq_false (by omega), Bool.or_false]
  · next hfull =>
    rw [List.take_append_of_le_length (by omega), List.take_of_length_le short,
      decide_eq_true (by omega), Bool.or_true]

/-- A text on a control line that does not end it: nothing leaves the router, and what fits of it
comes into the buffer. -/
theorem after_text {r : Router} (active : r.controlActive = true)
    (short : r.controlLine.length ≤ cliLineMax - 1) {text : List UInt8}
    (h : ∀ byte ∈ text, isTerminator byte = false) :
    r.forwarded text = [] ∧ r.submitted text = [] ∧
      r.after text = { r with
        controlLine := (r.controlLine ++ text).take (cliLineMax - 1)
        controlOverflow := r.controlOverflow ||
          decide (cliLineMax - 1 < r.controlLine.length + text.length) } := by
  induction text generalizing r with
  | nil =>
    refine ⟨rfl, rfl, ?_⟩
    rw [List.append_nil, List.take_of_length_le short, List.length_nil, Nat.add_zero,
      decide_eq_false (Nat.not_lt.mpr short), Bool.or_false]
    rfl
  | cons byte text ih =>
    have hstep := route_text active short (h byte List.mem_cons_self)
    have hlength : ((r.controlLine ++ [byte]).take (cliLineMax - 1)).length =
        min (cliLineMax - 1) (r.controlLine.length + 1) := by
      rw [List.length_take, List.length_append, List.length_singleton]
    obtain ⟨hforwarded, hsubmitted, hafter⟩ := ih (r := (r.routePort0Byte byte).router)
      (by rw [hstep]; exact active) (by rw [hstep]; exact (List.length_take_le _ _))
      fun byte hbyte => h byte (List.mem_cons_of_mem _ hbyte)
    simp only [forwarded, submitted, after]
    rw [hforwarded, hsubmitted, hafter, hstep]
    refine ⟨rfl, rfl, ?_⟩
    dsimp only
    congr 1
    · rw [take_take_append, List.append_assoc]
      rfl
    · rw [hlength, Bool.or_assoc, ← Bool.decide_or, List.length_cons]
      congr 2
      exact propext ⟨by omega, by omega⟩

/-- The router outside of a control line, at the start of a line or not. -/
def outsideLine (lineStart : Bool) : Router :=
  { controlLine := [], controlActive := false, controlOverflow := false, port0LineStart := lineStart }

/-- The router behind the `@` that starts a control line. -/
def onLine : Router :=
  { controlLine := [at_], controlActive := true, controlOverflow := false, port0LineStart := false }

theorem route_start : (outsideLine true).routePort0Byte at_ =
    { forward := false, submitted := [], router := onLine } := rfl

theorem route_outside {lineStart : Bool} {byte : UInt8} (h : ¬ (lineStart = true ∧ byte = at_)) :
    (outsideLine lineStart).routePort0Byte byte =
      { forward := true, submitted := [], router := outsideLine (isTerminator byte) } := by
  unfold routePort0Byte outsideLine isTerminator
  rw [if_neg Bool.false_ne_true, if_neg h]

/-- The router behind an `@` and a text that does not end the control line. -/
theorem onLine_after {text : List UInt8} (h : ∀ byte ∈ text, isTerminator byte = false) :
    onLine.after text =
      { controlLine := (at_ :: text).take (cliLineMax - 1)
        controlActive := true
        controlOverflow := decide (cliLineMax - 1 < (at_ :: text).length)
        port0LineStart := false } := by
  have hlength : [at_].length + text.length = (at_ :: text).length := Nat.add_comm _ _
  have hafter := (after_text (r := onLine) rfl (by decide) h).2.2
  unfold onLine at hafter ⊢
  rw [hafter]
  dsimp only
  rw [hlength, Bool.false_or]
  rfl

/-- The terminator of a control line: its text is submitted if it fits the buffer. -/
theorem route_terminator {text : List UInt8} (h : ∀ byte ∈ text, isTerminator byte = false)
    {terminator : UInt8} (hterminator : isTerminator terminator = true) :
    (onLine.after text).routePort0Byte terminator =
      { forward := false, submitted := submission (at_ :: text), router := outsideLine true } := by
  rw [onLine_after h]
  unfold routePort0Byte submission
  dsimp only
  rw [if_pos rfl, if_pos (of_decide_eq_true hterminator)]
  unfold submitControlLine
  dsimp only
  by_cases hfits : (at_ :: text).length ≤ cliLineMax - 1
  · rw [decide_eq_false (Nat.not_lt.mpr hfits), if_neg Bool.false_ne_true, if_pos hfits,
      List.take_of_length_le hfits]
    rfl
  · rw [decide_eq_true (Nat.not_le.mp hfits), if_pos rfl, if_neg hfits]
    rfl

/-- A control line that has not ended is kept back. -/
theorem open_line {text : List UInt8} (h : ∀ byte ∈ text, isTerminator byte = false) :
    (outsideLine true).forwarded (at_ :: text) = [] ∧
      (outsideLine true).submitted (at_ :: text) = [] := by
  obtain ⟨hforwarded, hsubmitted, _⟩ := after_text (r := onLine) rfl (by decide) h
  simp only [forwarded, submitted, route_start]
  exact ⟨hforwarded, hsubmitted⟩

/-- A control line that has ended is submitted, and what follows is at the start of a line. -/
theorem ended_line {text : List UInt8} (h : ∀ byte ∈ text, isTerminator byte = false)
    {terminator : UInt8} (hterminator : isTerminator terminator = true) (more : List UInt8) :
    (outsideLine true).forwarded (at_ :: (text ++ terminator :: more)) =
        (outsideLine true).forwarded more ∧
      (outsideLine true).submitted (at_ :: (text ++ terminator :: more)) =
        submission (at_ :: text) ++ (outsideLine true).submitted more := by
  obtain ⟨hforwarded, hsubmitted, _⟩ := after_text (r := onLine) rfl (by decide) h
  have hroute := route_terminator h hterminator
  simp only [forwarded, submitted, route_start]
  rw [forwarded_append, submitted_append, hforwarded, hsubmitted]
  simp only [forwarded, submitted]
  rw [hroute]
  exact ⟨rfl, rfl⟩

/-- The router splits a stream as `scan` does. -/
theorem scan_spec (lineStart : Bool) (stream : List UInt8) :
    (outsideLine lineStart).forwarded stream = (scan lineStart stream).outside ∧
      (outsideLine lineStart).submitted stream =
        (scan lineStart stream).completed.flatMap submission := by
  fun_induction scan lineStart stream with
  | case1 lineStart => exact ⟨rfl, rfl⟩
  | case2 lineStart byte rest hstart hend =>
    obtain ⟨rfl, rfl⟩ := hstart
    have hno : ∀ byte ∈ rest, isTerminator byte = false := by
      simpa using List.dropWhile_eq_nil_iff.mp hend
    exact open_line hno
  | case3 lineStart byte rest hstart terminator more hend split ih =>
    obtain ⟨rfl, rfl⟩ := hstart
    have hno : ∀ byte ∈ rest.takeWhile (!isTerminator ·), isTerminator byte = false := fun byte hbyte =>
      by simpa using List.mem_takeWhile_imp hbyte
    have hterminator : isTerminator terminator = true := by
      have hhead := List.head_dropWhile_not (!isTerminator ·) (l := rest) (by simp [hend])
      simpa [hend] using hhead
    obtain ⟨hforwarded, hsubmitted⟩ := ended_line hno hterminator more
    rw [← hend, List.takeWhile_append_dropWhile] at hforwarded hsubmitted
    rw [hforwarded, hsubmitted, List.flatMap_cons]
    exact ⟨ih.1, congrArg (_ ++ ·) ih.2⟩
  | case4 lineStart byte rest hstart split ih =>
    simp only [forwarded, submitted]
    rw [route_outside hstart]
    exact ⟨congrArg (byte :: ·) ih.1, ih.2⟩

/-- The index into the line buffer stays below its size. -/
theorem controlLine_le {r : Router} (h : r.controlLine.length ≤ cliLineMax - 1)
    (stream : List UInt8) : (r.after stream).controlLine.length ≤ cliLineMax - 1 := by
  induction stream generalizing r with
  | nil => exact h
  | cons byte rest ih =>
    apply ih
    unfold routePort0Byte
    split
    · split
      · exact Nat.zero_le _
      · split
        · next hroom =>
          rw [List.length_append]
          exact hroom
        · exact h
    · split
      · exact Nat.le_of_ble_eq_true rfl
      · exact h

end Router

namespace Service

variable {n : Nat}

/-- A chunk on port 0: what is forwarded goes to the ring. -/
theorem receiveChunk_port0 (s : Service n) (bytes : List UInt8) :
    s.receiveChunk 0 bytes = (s.router.submitted bytes,
      { s.setPort 0 ((s.router.forwarded bytes).foldl SerialPort.rxPut (s.ports 0)) with
        router := s.router.after bytes }) := by
  induction bytes generalizing s with
  | nil =>
    unfold receiveChunk
    simp only [Router.submitted, Router.forwarded, Router.after, List.foldl_nil, setPort,
      Function.update_eq_self]
  | cons byte rest ih =>
    unfold receiveChunk receiveByte
    rw [if_pos rfl]
    dsimp only
    rw [ih]
    simp only [Router.submitted, Router.forwarded, Router.after]
    split
    · simp [setPort]
    · rfl

/-- The interrupts of port 0 one after another, each with what `uart_fifo_read` returns in it. -/
def receiveAll (s : Service n) : List (List (List UInt8)) → List UInt8 × Service n
  | [] => ([], s)
  | chunks :: rest =>
    let first := s.drainFifo 0 chunks
    let behind := first.2.receiveAll rest
    (first.1 ++ behind.1, behind.2)

/-- All of them together are one chunk. -/
theorem receiveAll_eq (s : Service n) (interrupts : List (List (List UInt8))) :
    s.receiveAll interrupts = s.receiveChunk 0 (interrupts.flatMap fifoBytes) := by
  induction interrupts generalizing s with
  | nil => rfl
  | cons chunks rest ih =>
    change ((s.drainFifo 0 chunks).1 ++ ((s.drainFifo 0 chunks).2.receiveAll rest).1,
      ((s.drainFifo 0 chunks).2.receiveAll rest).2) = _
    rw [drainFifo_eq, List.flatMap_cons, receiveChunk_append, ih]

end Service

/-- However a stream arrives on port 0 after initialisation, the bytes outside its control lines are put
into the ring in order, and of each completed control line that fits the buffer the text is
submitted with a line feed. The index into the line buffer never exceeds 255. -/
theorem port0_split {n : Nat} (ports : Fin 2 → SerialPort n) (interrupts : List (List (List UInt8))) :
    let stream := interrupts.flatMap fifoBytes
    let result := (Service.mk ports .init).receiveAll interrupts
    result.2.ports 0 = (scan true stream).outside.foldl SerialPort.rxPut (ports 0) ∧
      result.2.ports 1 = ports 1 ∧
      result.1 = (scan true stream).completed.flatMap submission ∧
      ∀ k, (Router.init.after (stream.take k)).controlLine.length ≤ 255 := by
  intro stream result
  obtain ⟨hforwarded, hsubmitted⟩ := Router.scan_spec true stream
  have hresult : result = _ := (Service.receiveAll_eq ..).trans (Service.receiveChunk_port0 ..)
  rw [hresult]
  refine ⟨?_, ?_, hsubmitted, fun k => Router.controlLine_le (Nat.zero_le _) _⟩
  · rw [← hforwarded]
    exact Service.setPort_self (Service.mk ports .init) 0 _
  · exact Service.setPort_other (Service.mk ports .init) Fin.zero_ne_one.symm
      ((Router.init.forwarded stream).foldl SerialPort.rxPut (ports 0))

end Rtbus.Serial
