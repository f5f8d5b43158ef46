import Mathlib.Data.Nat.Digits.Lemmas

/-!
# Decimal numbers in text

`Decimal.write` is what `%lu` prints. `Decimal.value` is the number that a run of digits stands for.
Reading back what was written gives the number; reading only a part of its digits gives a smaller
one (`value_take_write`).

A reader of C text skips blanks and takes a sign before the digits. `afterNumber` is the text from
the first byte that stops it, which is the last byte it looks at.
-/

namespace Rtbus.Decimal

/-- The digits of a number, the most significant first. -/
def write (n : Nat) : List UInt8 :=
  if n = 0 then [48] else (Nat.digits 10 n).reverse.map fun d => UInt8.ofNat (48 + d)

/-- `isdigit`. -/
def isDigit (c : UInt8) : Bool := 48 ≤ c && c ≤ 57

/-- `isspace` in the C locale. -/
def isSpace (c : UInt8) : Bool := c = 32 || (9 ≤ c && c ≤ 13)

/-- The number that some digits stand for. -/
def value (digits : List UInt8) : Nat := digits.foldl (fun v c => v * 10 + (c.toNat - 48)) 0

/-- The text behind a sign, and whether the sign is a minus. -/
def afterSign : List UInt8 → Bool × List UInt8
  | [] => (false, [])
  | c :: rest => if c = 45 then (true, rest) else if c = 43 then (false, rest) else (false, c :: rest)

/-- The text from the first byte that is not part of the number. -/
def afterNumber (text : List UInt8) : List UInt8 :=
  (afterSign (text.dropWhile isSpace)).2.dropWhile isDigit

/-- `strtoul(text, NULL, 10)` where `unsigned long` has 32 bits. -/
def strtoul (text : List UInt8) : Nat :=
  let (negative, digits) := afterSign (text.dropWhile isSpace)
  let v := value (digits.takeWhile isDigit)
  if 2 ^ 32 ≤ v then 2 ^ 32 - 1 else if negative then (2 ^ 32 - v) % 2 ^ 32 else v

/-- How many bytes of the text `strtoul` looks at. -/
def strtoulExtent (text : List UInt8) : Nat := text.length - (afterNumber text).length + 1

/-- The value of digits in two parts. -/
theorem value_append (a b : List UInt8) : value (a ++ b) = value a * 10 ^ b.length + value b := by
  induction b using List.reverseRecOn with
  | nil => simp [value]
  | append_singleton b c ih =>
    have step (l : List UInt8) : value (l ++ [c]) = value l * 10 + (c.toNat - 48) := by
      unfold value
      rw [List.foldl_append]
      rfl
    rw [← List.append_assoc, step, step, ih, List.length_append, List.length_singleton, pow_succ]
    ring

/-- The byte of a digit. -/
theorem digit_toNat {d : Nat} (h : d < 10) : (UInt8.ofNat (48 + d)).toNat = 48 + d := by
  rw [UInt8.toNat_ofNat']
  exact Nat.mod_eq_of_lt (by omega)

/-- The value of written digits is that of the number's digits to base ten. -/
private theorem value_map (digits : List Nat) (h : ∀ d ∈ digits, d < 10) :
    value (digits.reverse.map fun d => UInt8.ofNat (48 + d)) = Nat.ofDigits 10 digits := by
  induction digits with
  | nil => rfl
  | cons d rest ih =>
    have hd := digit_toNat (h d List.mem_cons_self)
    have hone : value [UInt8.ofNat (48 + d)] = d := by
      unfold value
      rw [List.foldl_cons, List.foldl_nil, hd]
      omega
    rw [List.reverse_cons, List.map_append, value_append,
      ih fun d hd => h d (List.mem_cons_of_mem _ hd), Nat.ofDigits_cons, List.map_singleton, hone,
      List.length_singleton]
    ring

/-- What was written is read back. -/
theorem value_write (n : Nat) : value (write n) = n := by
  unfold write
  split
  · next h => rw [h]; rfl
  · exact (value_map _ fun d hd => Nat.digits_lt_base (by decide) hd).trans (Nat.ofDigits_digits 10 n)

/-- A number is written with digits only. -/
theorem write_isDigit (n : Nat) : ∀ c ∈ write n, isDigit c = true := by
  intro c hc
  unfold write at hc
  split at hc
  · rw [List.mem_singleton.mp hc]
    rfl
  · obtain ⟨d, hd, rfl⟩ := List.mem_map.mp hc
    have hlt : d < 10 := Nat.digits_lt_base (by decide) (List.mem_reverse.mp hd)
    have hval := digit_toNat hlt
    simp only [isDigit, Bool.and_eq_true, decide_eq_true_eq, UInt8.le_iff_toNat_le, hval]
    constructor
    · show 48 ≤ 48 + d
      omega
    · show 48 + d ≤ 57
      omega

/-- How many digits a number has. -/
theorem length_write_le {n : Nat} (pos : 1 ≤ n) (k : Nat) : (write n).length ≤ k ↔ n < 10 ^ k := by
  unfold write
  rw [if_neg (by omega), List.length_map, List.length_reverse]
  exact Nat.digits_length_le_iff (by decide) n

/-- It is written with at least one. -/
theorem write_ne_nil (n : Nat) : write n ≠ [] := by
  unfold write
  split
  · exact List.cons_ne_nil _ _
  · next h => simpa [Nat.digits_eq_nil_iff_eq_zero] using h

/-- A part of the digits stands for a smaller number. -/
theorem value_take_write {n k : Nat} (pos : 1 ≤ n) (short : k < (write n).length) :
    value ((write n).take k) < n := by
  have hsplit := value_append ((write n).take k) ((write n).drop k)
  rw [List.take_append_drop, value_write, List.length_drop] at hsplit
  obtain ⟨j, hj⟩ : ∃ j, (write n).length - k = j + 1 := ⟨(write n).length - k - 1, by omega⟩
  rw [hj, pow_succ] at hsplit
  have hpow : 1 ≤ 10 ^ j := Nat.one_le_pow _ _ (by decide)
  nlinarith [Nat.zero_le (value ((write n).take k))]

section Reading

variable {text rest : List UInt8}

/-- A digit is no blank. -/
theorem isSpace_of_isDigit {c : UInt8} (h : isDigit c = true) : isSpace c = false := by
  simp only [isDigit, isSpace, Bool.and_eq_true, decide_eq_true_eq, UInt8.le_iff_toNat_le,
    Bool.or_eq_false_iff, Bool.and_eq_false_iff, decide_eq_false_iff_not, ← UInt8.toNat_inj] at h ⊢
  have h48 : (48 : UInt8).toNat = 48 := rfl
  have h32 : (32 : UInt8).toNat = 32 := rfl
  have h13 : (13 : UInt8).toNat = 13 := rfl
  omega

/-- Nor is it a sign. -/
theorem afterSign_of_isDigit {c : UInt8} (h : isDigit c = true) (text : List UInt8) :
    afterSign (c :: text) = (false, c :: text) := by
  have hne (k : UInt8) (hk : isDigit k = false) : c ≠ k := by
    rintro rfl
    rw [h] at hk
    cases hk
  rw [afterSign, if_neg (hne 45 rfl), if_neg (hne 43 rfl)]

/-- Digits up to a byte that stops the reader are read as the number they stand for, or as the
largest number of 32 bits. -/
theorem strtoul_of_digits {digits : List UInt8} (nonempty : digits ≠ [])
    (all : ∀ c ∈ digits, isDigit c = true) (rest : List UInt8) :
    strtoul (digits ++ 0 :: rest) = min (value digits) (2 ^ 32 - 1) := by
  obtain ⟨c, more, rfl⟩ := List.exists_cons_of_ne_nil nonempty
  have hc := all c List.mem_cons_self
  unfold strtoul
  rw [List.cons_append, List.dropWhile_cons_of_neg (by rw [isSpace_of_isDigit hc]; exact nofun),
    afterSign_of_isDigit hc, ← List.cons_append]
  have htake : ((c :: more) ++ 0 :: rest).takeWhile isDigit = c :: more := by
    rw [List.takeWhile_append_of_pos all]
    exact List.append_nil _
  dsimp only
  rw [htake]
  split
  · rename_i hlarge
    exact (Nat.min_eq_right (by omega)).symm
  · rw [if_neg Bool.false_ne_true]
    exact (Nat.min_eq_left (by omega)).symm

/-- Digits that a zero ends are read as their value, as long as that has 32 bits. -/
theorem strtoul_digits {digits : List UInt8} (nonempty : digits ≠ [])
    (all : ∀ c ∈ digits, isDigit c = true) (small : value digits < 2 ^ 32) (rest : List UInt8) :
    strtoul (digits ++ 0 :: rest) = value digits :=
  (strtoul_of_digits nonempty all rest).trans (Nat.min_eq_left (by omega))

/-- Where dropping stops inside the text, what follows does not matter. -/
theorem dropWhile_append_of_stop {p : UInt8 → Bool} (h : text.dropWhile p ≠ []) :
    (text ++ rest).dropWhile p = text.dropWhile p ++ rest := by
  rw [List.dropWhile_append, if_neg (by simpa using h)]

/-- The sign is at the front of the text. -/
theorem afterSign_append (h : text ≠ []) :
    afterSign (text ++ rest) = ((afterSign text).1, (afterSign text).2 ++ rest) := by
  obtain ⟨c, more, rfl⟩ := List.exists_cons_of_ne_nil h
  simp only [List.cons_append, afterSign]
  split
  · rfl
  · split <;> rfl

/-- What follows the sign is an end of the text. -/
theorem afterSign_suffix (text : List UInt8) : (afterSign text).2 <:+ text := by
  cases text with
  | nil => exact List.suffix_refl _
  | cons c rest =>
    rw [afterSign]
    split
    · exact List.suffix_cons _ _
    · split
      · exact List.suffix_cons _ _
      · exact List.suffix_refl _

/-- What follows the number is one too. -/
theorem afterNumber_suffix (text : List UInt8) : afterNumber text <:+ text :=
  (List.dropWhile_suffix _).trans ((afterSign_suffix _).trans (List.dropWhile_suffix _))

/-- A text with a byte that stops the reader has one before its number is over. -/
theorem stops_ne_nil (h : afterNumber text ≠ []) :
    text.dropWhile isSpace ≠ [] ∧ (afterSign (text.dropWhile isSpace)).2.dropWhile isDigit ≠ [] := by
  refine ⟨fun hnil => h ?_, h⟩
  unfold afterNumber
  rw [hnil]
  rfl

/-- A number that ends inside the text ends there whatever follows. -/
theorem afterNumber_append (h : afterNumber text ≠ []) :
    afterNumber (text ++ rest) = afterNumber text ++ rest := by
  obtain ⟨hblank, hdigits⟩ := stops_ne_nil h
  unfold afterNumber
  rw [dropWhile_append_of_stop hblank, afterSign_append hblank]
  exact dropWhile_append_of_stop hdigits

/-- What follows the byte that stops the reader does not matter. -/
theorem strtoul_append (h : afterNumber text ≠ []) : strtoul (text ++ rest) = strtoul text := by
  obtain ⟨hblank, hdigits⟩ := stops_ne_nil h
  have htake : ((afterSign (text.dropWhile isSpace)).2 ++ rest).takeWhile isDigit =
      (afterSign (text.dropWhile isSpace)).2.takeWhile isDigit := by
    rw [List.takeWhile_append, if_neg]
    intro hlen
    apply hdigits
    have hsplit := congrArg List.length
      (List.takeWhile_append_dropWhile (p := isDigit) (l := (afterSign (text.dropWhile isSpace)).2))
    rw [List.length_append, hlen] at hsplit
    exact List.length_eq_zero_iff.mp (by omega)
  unfold strtoul
  rw [dropWhile_append_of_stop hblank, afterSign_append hblank]
  dsimp only
  rw [htake]

/-- Without such a byte the reader goes on into what follows. -/
theorem afterNumber_append_of_nil (h : afterNumber text = []) (rest : List UInt8) :
    afterNumber (text ++ rest) <:+ rest := by
  unfold afterNumber at h ⊢
  by_cases hblank : text.dropWhile isSpace = []
  · rw [List.dropWhile_append, if_pos (by simpa using hblank)]
    exact afterNumber_suffix rest
  · rw [dropWhile_append_of_stop hblank, afterSign_append hblank]
    dsimp only
    rw [List.dropWhile_append, if_pos (by simpa using h)]
    exact List.dropWhile_suffix _

/-- Then no byte behind the text is looked at. -/
theorem strtoulExtent_append (h : afterNumber text ≠ []) (rest : List UInt8) :
    strtoulExtent (text ++ rest) ≤ text.length := by
  have hpos := List.length_pos_of_ne_nil h
  have hle := (afterNumber_suffix text).length_le
  unfold strtoulExtent
  rw [afterNumber_append h, List.length_append, List.length_append]
  omega

/-- A number up to the end of the text makes `strtoul` look behind it. -/
theorem strtoulExtent_append_of_nil (h : afterNumber text = []) (rest : List UInt8) :
    text.length < strtoulExtent (text ++ rest) := by
  have hle := (afterNumber_append_of_nil h rest).length_le
  unfold strtoulExtent
  rw [List.length_append]
  omega

end Reading

end Rtbus.Decimal
