import Rtbus.Base.Decimal
import Rtbus.Base.Lines

/-!
# Printing from a sketch

`print` and `println` of `HardwareSerial` turn what a sketch gives them into calls of
`rtbus_serial_write`, a number into one call for each of its digits. The runtime sends all the bytes
of a call or none, and says how many; none if nobody holds the line at the other end, or while the
console is suppressed. `print` and `println` add up what they are told.

Whatever the runtime accepts, the sums are the bytes on the wire, and what is missing is missing
between calls of `rtbus_serial_write` (`Prints`). Where the sums are the lengths of the texts, the
host reads the lines that the sketch has printed, and from a number's line the number
(`printed_read_back`).
-/

namespace Rtbus.Arduino

open Rtbus.Lines

/-- The wire of a port: the bytes sent, and the number of calls of `rtbus_serial_write` so far. -/
structure Wire where
  sent : List UInt8
  calls : Nat

/-- A function that writes and returns `written`. -/
abbrev Writes := Wire → Nat × Wire

/-- `written` of the first one, and then `written += ` the other. -/
def Writes.andThen (f g : Writes) : Writes := fun w =>
  let first := f w
  let second := g first.2
  (first.1 + second.1, second.2)

/-- No call: 0. -/
def Writes.none : Writes := fun w => (0, w)

/-- A number of calls. -/
def Writes.all (fs : List Writes) : Writes := fs.foldr Writes.andThen Writes.none

section Source

variable (accepts : Nat → Bool)

/-- `rtbus_serial_write`, where the runtime accepts some calls. -/
def rtbusSerialWrite (data : List UInt8) : Writes := fun w =>
  if accepts w.calls then (data.length, ⟨w.sent ++ data, w.calls + 1⟩)
  else (0, { w with calls := w.calls + 1 })

/-- `runtime_arduino_serial_write`. -/
def runtimeArduinoSerialWrite (data : Option (List UInt8)) : Writes :=
  match data with
  | some (byte :: rest) => rtbusSerialWrite accepts (byte :: rest)
  | _ => Writes.none

/-- `HardwareSerial::write(const uint8_t *, size_t)`. -/
def writeBuffer (buffer : Option (List UInt8)) : Writes :=
  match buffer with
  | some (byte :: rest) => runtimeArduinoSerialWrite accepts (some (byte :: rest))
  | _ => Writes.none

/-- `HardwareSerial::write(uint8_t)`. -/
def writeByte (value : UInt8) : Writes := writeBuffer accepts (some [value])

/-- The loop of `string_length`. The end of the bytes stands for the terminator too. -/
def stringLengthLoop : List UInt8 → Nat
  | [] => 0
  | byte :: rest => if byte = 0 then 0 else stringLengthLoop rest + 1

/-- `string_length`. -/
def stringLength : Option (List UInt8) → Nat
  | none => 0
  | some bytes => stringLengthLoop bytes

/-- The loop of `serial_print_unsigned` that fills `digits`, with room for so many. -/
def digitsLoop : Nat → UInt32 → List UInt8
  | 0, _ => []
  | room + 1, value =>
    UInt8.ofNat (48 + value.toNat % 10) ::
      if value / 10 ≠ 0 then digitsLoop room (value / 10) else []

/-- `serial_print_unsigned`. -/
def serialPrintUnsigned (value : UInt32) : Writes :=
  Writes.all ((digitsLoop 10 value).reverse.map (writeByte accepts))

/-- `print(const char *)`. -/
def printText (text : Option (List UInt8)) : Writes :=
  writeBuffer accepts (text.map (·.take (stringLength text)))

/-- `print(unsigned long)`. -/
def printUnsignedLong (value : UInt32) : Writes := serialPrintUnsigned accepts value

/-- `print(long)`. -/
def printLong (value : Int32) : Writes :=
  if value < 0 then
    (writeByte accepts 45).andThen (serialPrintUnsigned accepts (0 - value.toUInt32))
  else Writes.none.andThen (serialPrintUnsigned accepts value.toUInt32)

/-- `print(int)`. -/
def printInt (value : Int32) : Writes := printLong accepts value

/-- `print(unsigned int)`. -/
def printUnsignedInt (value : UInt32) : Writes := printUnsignedLong accepts value

/-- `println(void)`. -/
def printlnVoid : Writes := writeBuffer accepts (some [13, 10])

/-- What can be printed. -/
inductive Value
  | text (bytes : Option (List UInt8))
  | int (value : Int32)
  | unsignedInt (value : UInt32)
  | long (value : Int32)
  | unsignedLong (value : UInt32)

/-- `print`, by what it is given. -/
def print : Value → Writes
  | .text text => printText accepts text
  | .int value => printInt accepts value
  | .unsignedInt value => printUnsignedInt accepts value
  | .long value => printLong accepts value
  | .unsignedLong value => printUnsignedLong accepts value

/-- `println`. -/
def println (value : Value) : Writes := (print accepts value).andThen (printlnVoid accepts)

/-- A call of the sketch. -/
inductive PrintCall
  | byte (value : UInt8)
  | buffer (buffer : Option (List UInt8))
  | print (value : Value)
  | println (value : Value)
  | newline

def PrintCall.writes : PrintCall → Writes
  | byte value => writeByte accepts value
  | buffer data => writeBuffer accepts data
  | print value => Arduino.print accepts value
  | println value => Arduino.println accepts value
  | newline => printlnVoid accepts

/-- A sketch makes its calls: what each one returns, and the wire. -/
def runCalls : List PrintCall → Wire → List Nat × Wire
  | [], w => ([], w)
  | call :: calls, w =>
    let (written, w) := call.writes accepts w
    let (rest, w) := runCalls calls w
    (written :: rest, w)

end Source

/-! ## What the texts are -/

/-- The text of a number. -/
def numberText (n : Int) : List UInt8 :=
  if n < 0 then 45 :: Decimal.write n.natAbs else Decimal.write n.natAbs

namespace Value

/-- The number that is printed. -/
def number : Value → Option Int
  | text _ => none
  | int value | long value => some value.toInt
  | unsignedInt value | unsignedLong value => some value.toNat

/-- What is printed: the bytes in front of the terminator, or the number in decimal. -/
def printed : Value → List UInt8
  | text bytes => (bytes.getD []).takeWhile (· ≠ 0)
  | int value | long value => numberText value.toInt
  | unsignedInt value | unsignedLong value => numberText value.toNat

end Value

def PrintCall.printed : PrintCall → List UInt8
  | byte value => [value]
  | buffer data => data.getD []
  | print value => value.printed
  | println value => value.printed ++ [13, 10]
  | newline => [13, 10]

/-! ## What is sent -/

variable {accepts : Nat → Bool}

/-- What a function sends of a text, in its order, is as long as it says. -/
def Prints (f : Writes) (text : List UInt8) : Prop :=
  ∀ w, ∃ part, (f w).2.sent = w.sent ++ part ∧ part.length = (f w).1 ∧ part.Sublist text

/-- Without a write nothing is printed. -/
theorem Prints.none : Prints Writes.none [] :=
  fun _ => ⟨[], (List.append_nil _).symm, rfl, .slnil⟩

/-- Writes one behind the other print their texts one behind the other. -/
theorem Prints.andThen {f g : Writes} {text more : List UInt8} (hf : Prints f text)
    (hg : Prints g more) : Prints (f.andThen g) (text ++ more) := by
  intro w
  obtain ⟨part, hsent, hlength, hsub⟩ := hf w
  obtain ⟨part', hsent', hlength', hsub'⟩ := hg (f w).2
  refine ⟨part ++ part', ?_, ?_, hsub.append hsub'⟩
  · show (g (f w).2).2.sent = w.sent ++ (part ++ part')
    rw [hsent', hsent, List.append_assoc]
  · show (part ++ part').length = (f w).1 + (g (f w).2).1
    rw [List.length_append, hlength, hlength']

/-- A call of the runtime sends its text, or nothing. -/
theorem prints_serialWrite (data : List UInt8) : Prints (rtbusSerialWrite accepts data) data := by
  intro w
  unfold rtbusSerialWrite
  split
  · exact ⟨data, rfl, rfl, .refl _⟩
  · exact ⟨[], (List.append_nil _).symm, rfl, List.nil_sublist _⟩

/-- A buffer is printed as it is, and a null pointer not at all. -/
theorem prints_writeBuffer (buffer : Option (List UInt8)) :
    Prints (writeBuffer accepts buffer) (buffer.getD []) := by
  match buffer with
  | none | some [] => exact .none
  | some (byte :: rest) => exact prints_serialWrite (byte :: rest)

/-- A byte is printed as it is. -/
theorem prints_writeByte (value : UInt8) : Prints (writeByte accepts value) [value] :=
  prints_writeBuffer (some [value])

/-- The bytes of a text, in a call each. -/
theorem prints_bytes (text : List UInt8) :
    Prints (Writes.all (text.map (writeByte accepts))) text := by
  induction text with
  | nil => exact .none
  | cons byte rest ih => exact (prints_writeByte byte).andThen ih

/-- The loop of `string_length` counts the bytes up to the first zero. -/
theorem take_stringLength (bytes : List UInt8) :
    bytes.take (stringLengthLoop bytes) = bytes.takeWhile (· ≠ 0) := by
  induction bytes with
  | nil => rfl
  | cons byte rest ih =>
    unfold stringLengthLoop
    rw [List.takeWhile_cons]
    split
    · rename_i hzero
      rw [hzero]
      rfl
    · rename_i hbyte
      rw [List.take_succ_cons, ih, if_pos (decide_eq_true hbyte)]

/-- A text is printed up to its zero. -/
theorem prints_text (text : Option (List UInt8)) :
    Prints (printText accepts text) (Value.text text).printed := by
  cases text with
  | none => exact .none
  | some bytes =>
    have h := @prints_writeBuffer accepts (some (bytes.take (stringLengthLoop bytes)))
    rw [Option.getD_some, take_stringLength] at h
    unfold printText stringLength
    rw [Option.map_some, take_stringLength]
    exact h

/-- The loop makes the digits, if there is room for them. -/
theorem digitsLoop_eq (room : Nat) (value : UInt32) (nonzero : value ≠ 0)
    (fits : value.toNat < 10 ^ room) :
    digitsLoop room value = (Nat.digits 10 value.toNat).map fun d => UInt8.ofNat (48 + d) := by
  induction room generalizing value with
  | zero =>
    have hzero : value.toNat = 0 := by omega
    exact absurd (UInt32.toNat_inj.mp hzero) nonzero
  | succ room ih =>
    have pos : 0 < value.toNat :=
      Nat.pos_of_ne_zero fun hzero => nonzero (UInt32.toNat_inj.mp hzero)
    have hdiv : (value / 10).toNat = value.toNat / 10 := UInt32.toNat_div value 10
    unfold digitsLoop
    rw [Nat.digits_def' (by decide) pos, List.map_cons]
    refine congrArg _ ?_
    split
    · rename_i hrest
      rw [ih _ hrest (by rw [hdiv, Nat.div_lt_iff_lt_mul (by decide), ← Nat.pow_succ]; exact fits),
        hdiv]
    · rename_i hrest
      rw [← hdiv, not_not.mp hrest]
      rfl

/-- A number of 32 bits has at most ten digits. -/
theorem digits_printed (value : UInt32) :
    (digitsLoop 10 value).reverse = Decimal.write value.toNat := by
  unfold Decimal.write
  split
  · rename_i hzero
    obtain rfl : value = 0 := UInt32.toNat_inj.mp hzero
    rfl
  · rename_i hnonzero
    rw [digitsLoop_eq 10 value (fun hzero => hnonzero (congrArg UInt32.toNat hzero))
      (Nat.lt_trans value.toNat_lt (by decide)), List.map_reverse]

/-- The digits that the loop divides off, from the last one on, are those of the number. -/
theorem prints_unsigned (value : UInt32) :
    Prints (serialPrintUnsigned accepts value) (Decimal.write value.toNat) := by
  unfold serialPrintUnsigned
  rw [digits_printed]
  exact prints_bytes _

/-- The magnitude of a negative number, the least one included. -/
theorem toNat_magnitude (value : Int32) (negative : value < 0) :
    (0 - value.toUInt32).toNat = value.toInt.natAbs := by
  have hlt : value.toInt < 0 := Int32.lt_iff_toInt_lt.mp negative
  have hint : value.toInt = if 2 * value.toUInt32.toNat < 2 ^ 32 then (value.toUInt32.toNat : Int)
      else value.toUInt32.toNat - (2 ^ 32 : Nat) := BitVec.toInt_eq_toNat_cond value.toBitVec
  have hbound := value.toUInt32.toNat_lt
  rw [UInt32.toNat_sub]
  have hzero : (0 : UInt32).toNat = 0 := rfl
  split at hint <;> omega

/-- A number that is not negative is its own absolute value. -/
theorem toNat_of_nonnegative (value : Int32) (nonnegative : ¬ value < 0) :
    value.toUInt32.toNat = value.toInt.natAbs ∧ ¬ value.toInt < 0 := by
  have hge : ¬ value.toInt < 0 := fun h => nonnegative (Int32.lt_iff_toInt_lt.mpr h)
  have hint : value.toInt = if 2 * value.toUInt32.toNat < 2 ^ 32 then (value.toUInt32.toNat : Int)
      else value.toUInt32.toNat - (2 ^ 32 : Nat) := BitVec.toInt_eq_toNat_cond value.toBitVec
  have hbound := value.toUInt32.toNat_lt
  refine ⟨?_, hge⟩
  split at hint <;> omega

/-- A negative number is printed as a minus and its absolute value, the least one too. -/
theorem prints_long (value : Int32) :
    Prints (printLong accepts value) (numberText value.toInt) := by
  unfold printLong numberText
  split
  · rename_i negative
    have hint : value.toInt < 0 := Int32.lt_iff_toInt_lt.mp negative
    rw [if_pos hint, ← toNat_magnitude value negative]
    exact (prints_writeByte 45).andThen (prints_unsigned _)
  · rename_i nonnegative
    obtain ⟨hnat, hint⟩ := toNat_of_nonnegative value nonnegative
    rw [if_neg hint, ← hnat]
    exact Prints.none.andThen (prints_unsigned _)

/-- An unsigned number is printed as its digits. -/
theorem prints_unsignedLong (value : UInt32) :
    Prints (printUnsignedLong accepts value) (numberText value.toNat) := by
  have h := @prints_unsigned accepts value
  unfold numberText
  rw [if_neg (Int.not_lt.mpr (Int.natCast_nonneg _)), Int.natAbs_natCast]
  exact h

/-- Each kind of value is printed as its text. -/
theorem prints_print (value : Value) : Prints (print accepts value) value.printed := by
  cases value with
  | text bytes => exact prints_text bytes
  | int value => exact prints_long value
  | unsignedInt value => exact prints_unsignedLong value
  | long value => exact prints_long value
  | unsignedLong value => exact prints_unsignedLong value

/-- Every call prints its text. -/
theorem prints_call (call : PrintCall) : Prints (call.writes accepts) call.printed := by
  cases call with
  | byte value => exact prints_writeByte value
  | buffer data => exact prints_writeBuffer data
  | print value => exact prints_print value
  | println value => exact (prints_print value).andThen (prints_writeBuffer (some [13, 10]))
  | newline => exact prints_writeBuffer (some [13, 10])

/-- What a sketch sends, and what it is told. -/
theorem runCalls_parts (calls : List PrintCall) (w : Wire) :
    ∃ parts, (runCalls accepts calls w).2.sent = w.sent ++ parts.flatten ∧
      parts.map List.length = (runCalls accepts calls w).1 ∧
      List.Forall₂ List.Sublist parts (calls.map PrintCall.printed) := by
  induction calls generalizing w with
  | nil => exact ⟨[], (List.append_nil _).symm, rfl, .nil⟩
  | cons call calls ih =>
    obtain ⟨part, hsent, hlength, hsub⟩ := prints_call call w
    obtain ⟨parts, hsent', hlength', hsub'⟩ := ih (call.writes accepts w).2
    refine ⟨part :: parts, ?_, congr (congrArg _ hlength) hlength', .cons hsub hsub'⟩
    show (runCalls accepts calls (call.writes accepts w).2).2.sent = _
    rw [hsent', hsent, List.append_assoc]
    rfl

/-- Parts of texts that are as long as the texts. -/
theorem flatten_of_lengths {parts texts : List (List UInt8)}
    (subs : List.Forall₂ List.Sublist parts texts)
    (full : parts.map List.length = texts.map List.length) : parts = texts := by
  induction subs with
  | nil => rfl
  | cons hsub _ ih =>
    obtain ⟨hlength, hrest⟩ := List.cons_eq_cons.mp full
    rw [hsub.eq_of_length hlength, ih hrest]

/-! ## What the host reads -/

/-- The number that the digits are. -/
def readDigits (digits : List UInt8) : Option Int :=
  if digits ≠ [] ∧ digits.all Decimal.isDigit then some (Decimal.value digits) else none

/-- The number in a line, if it is one. -/
def readNumber (line : List UInt8) : Option Int :=
  if line.head? = some 45 then (readDigits line.tail).map (-·) else readDigits line

/-- A line without the CR at its end. -/
def withoutCr (line : List UInt8) : List UInt8 :=
  if line.getLast? = some 13 then line.dropLast else line

/-- The CR of a line that was printed is dropped. -/
theorem withoutCr_append (line : List UInt8) : withoutCr (line ++ [13]) = line := by
  unfold withoutCr
  rw [if_pos List.getLast?_concat, List.dropLast_concat]

/-- Digits do not begin with a minus. -/
theorem head_write_ne (n : Nat) : (Decimal.write n).head? ≠ some 45 := by
  intro hhead
  have hdigit := Decimal.write_isDigit n 45 (List.mem_of_head? hhead)
  cases hdigit

/-- Digits are read back. -/
theorem readDigits_write (n : Nat) : readDigits (Decimal.write n) = some (n : Int) := by
  unfold readDigits
  rw [if_pos ⟨Decimal.write_ne_nil n, List.all_eq_true.mpr (Decimal.write_isDigit n)⟩,
    Decimal.value_write]

/-- A number that was printed is read. -/
theorem readNumber_numberText (n : Int) : readNumber (numberText n) = some n := by
  unfold readNumber numberText
  split
  · rw [if_pos List.head?_cons, List.tail_cons, readDigits_write]
    show some (-(n.natAbs : Int)) = some n
    exact congrArg some (by omega)
  · rw [if_neg (head_write_ne _), readDigits_write]
    exact congrArg some (by omega)

/-- The digits of a number and its sign end no line. -/
theorem lf_not_mem_numberText (n : Int) : (10 : UInt8) ∉ numberText n := by
  have hdigits : (10 : UInt8) ∉ Decimal.write n.natAbs := fun h => by
    have hdigit := Decimal.write_isDigit _ 10 h
    cases hdigit
  unfold numberText
  split
  · exact fun h => (List.mem_cons.mp h).elim nofun hdigits
  · exact hdigits

namespace Value

/-- A text is one line. -/
def OneLine (v : Value) : Prop := v.number = none → 10 ∉ v.printed

/-- The text of a value that is printed in one line has no LF. -/
theorem OneLine.no_lf {v : Value} (h : v.OneLine) : 10 ∉ v.printed := by
  cases v with
  | text bytes => exact h rfl
  | int value => exact lf_not_mem_numberText _
  | unsignedInt value => exact lf_not_mem_numberText _
  | long value => exact lf_not_mem_numberText _
  | unsignedLong value => exact lf_not_mem_numberText _

/-- The number of a line is read back. -/
theorem readNumber_printed {v : Value} {n : Int} (h : v.number = some n) :
    readNumber v.printed = some n := by
  cases v with
  | text bytes => cases h
  | int value =>
    cases h
    exact readNumber_numberText _
  | unsignedInt value =>
    cases h
    exact readNumber_numberText _
  | long value =>
    cases h
    exact readNumber_numberText _
  | unsignedLong value =>
    cases h
    exact readNumber_numberText _

end Value

/-- The lines of values that were printed with `println`. -/
theorem complete_println {values : List Value} (h : ∀ v ∈ values, v.OneLine) :
    (complete (· == 10) ((values.map PrintCall.println).flatMap PrintCall.printed)).map withoutCr =
      values.map Value.printed := by
  have hframe : (values.map PrintCall.println).flatMap PrintCall.printed =
      frame 10 (values.map (·.printed ++ [13])) := by
    unfold frame
    rw [List.flatMap_map, List.flatMap_map]
    refine congrArg (List.flatMap · values) (funext fun v => ?_)
    exact (List.append_assoc v.printed [13] [10]).symm
  have hsplit := @split_frame _ (· == 10) (10 : UInt8) (values.map (·.printed ++ [13])) rfl
    fun line hline x hx => by
      obtain ⟨v, hv, rfl⟩ := List.mem_map.mp hline
      refine beq_eq_false_iff_ne.mpr ?_
      rintro rfl
      rcases List.mem_append.mp hx with hx | hx
      · exact (h v hv).no_lf hx
      · cases List.mem_singleton.mp hx
  rw [hframe]
  unfold complete
  rw [hsplit, List.map_map]
  exact List.map_congr_left fun v _ => withoutCr_append v.printed

/-- For every sequence of calls of a sketch and whatever calls of `rtbus_serial_write` the runtime
accepts: each call sends a part of its text, in its order and as long as it returns, behind what the
calls before it have sent; where all of them return the lengths of their texts, they have sent the
texts; and if these are values in lines of their own, the host finds the lines in what it receives,
and the numbers in them, from the least one to the largest. -/
theorem printed_read_back (accepts : Nat → Bool) (calls : List PrintCall) (w : Wire) :
    (∃ parts, (runCalls accepts calls w).2.sent = w.sent ++ parts.flatten ∧
      parts.map List.length = (runCalls accepts calls w).1 ∧
      List.Forall₂ List.Sublist parts (calls.map PrintCall.printed)) ∧
      ((runCalls accepts calls w).1 = calls.map (·.printed.length) →
        (runCalls accepts calls w).2.sent = w.sent ++ calls.flatMap PrintCall.printed) ∧
      ∀ values : List Value, calls = values.map .println → (∀ v ∈ values, v.OneLine) → w.sent = [] →
        (runCalls accepts calls w).1 = calls.map (·.printed.length) →
          (complete (· == 10) (runCalls accepts calls w).2.sent).map withoutCr =
              values.map Value.printed ∧
            ∀ v ∈ values, ∀ n, v.number = some n → readNumber v.printed = some n := by
  obtain ⟨parts, hsent, hlength, hsub⟩ := @runCalls_parts accepts calls w
  have whole : (runCalls accepts calls w).1 = calls.map (·.printed.length) →
      (runCalls accepts calls w).2.sent = w.sent ++ calls.flatMap PrintCall.printed := by
    intro full
    have hparts := flatten_of_lengths hsub (by rw [hlength, full, List.map_map]; rfl)
    rw [hsent, hparts, List.flatMap_def]
  refine ⟨⟨parts, hsent, hlength, hsub⟩, whole, ?_⟩
  rintro values rfl oneLine hempty full
  rw [whole full, hempty, List.nil_append]
  exact ⟨complete_println oneLine, fun v _ n => v.readNumber_printed⟩

/-- The least and the largest number come back. -/
example : (complete (· == 10) (runCalls (fun _ => true)
    [.println (.long (-2147483648)), .println (.unsignedLong 4294967295)] ⟨[], 0⟩).2.sent).map
      (readNumber ∘ withoutCr) = [some (-2147483648), some 4294967295] := by
  decide +kernel

end Rtbus.Arduino
