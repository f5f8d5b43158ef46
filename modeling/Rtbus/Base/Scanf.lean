import Mathlib.Data.List.TakeWhile
import Rtbus.Base.Decimal
import Rtbus.Base.IntelHex

/-!
# Reading text in C

`fgets` cuts a text into pieces: lines, and parts of lines that are longer than the buffer.
`scanHex` and `scanWord` are the conversions `%lx` and `%s` of `sscanf`, with the text behind what
they have taken.

What the two accept is a matter of grammar: a number is spelled with blanks, a sign and a radix in
front of its digits (`Spells`), and a word ends where the next blank is (`Ends`). The conversions
take exactly that (`scanHex_of_spells` and `spells_of_scanHex`, `scanWord_iff`).

C libraries differ about a radix without digits: where the standard asks for a digit, glibc reads the
zero of the radix. So the library is a parameter (`Libc`).
-/

namespace Rtbus.Scanf

open Rtbus.Decimal Rtbus.IntelHex

/-- What is up to the C library: the width of `unsigned long`, and whether a radix without digits is
a number, which is 0 then. -/
structure Libc where
  bits : Nat
  bareRadix : Bool

/-- `isxdigit`. -/
def isHex (c : UInt8) : Bool := (hexValue c).isSome

/-- The number that some digits stand for. -/
def hexNumber (digits : List UInt8) : Nat :=
  digits.foldl (fun v c => v * 16 + (hexValue c).getD 0) 0

/-- The text behind a radix. -/
def afterRadix : List UInt8 → List UInt8
  | zero :: x :: rest => if zero = 48 ∧ (x = 120 ∨ x = 88) then rest else zero :: x :: rest
  | text => text

/-- What `strtoul` makes of a number where `unsigned long` has so many bits. -/
def converted (bits : Nat) (negative : Bool) (v : Nat) : Nat :=
  if 2 ^ bits ≤ v then 2 ^ bits - 1 else if negative then (2 ^ bits - v) % 2 ^ bits else v

/-- `%lx`. -/
def scanHex (libc : Libc) (text : List UInt8) : Option (Nat × List UInt8) :=
  let signed := afterSign (text.dropWhile isSpace)
  let behind := afterRadix signed.2
  let digits := behind.takeWhile isHex
  if digits = [] ∧ ¬ (libc.bareRadix = true ∧ behind ≠ signed.2) then none
  else some (converted libc.bits signed.1 (hexNumber digits), behind.dropWhile isHex)

/-- `%s` with a width. -/
def scanWord (width : Nat) (text : List UInt8) : Option (List UInt8) :=
  let word := ((text.dropWhile isSpace).takeWhile (!isSpace ·)).take width
  if word = [] then none else some word

/-- The pieces that `fgets` reads with room for so many bytes, from what it has read already. -/
def fgetsFrom (room : Nat) : List UInt8 → List UInt8 → List (List UInt8)
  | line, [] => if line = [] then [] else [line]
  | line, c :: rest =>
    let line' := line ++ [c]
    if c = 10 ∨ room ≤ line'.length then line' :: fgetsFrom room [] rest
    else fgetsFrom room line' rest

/-- The pieces of a text. -/
def pieces (room : Nat) (text : List UInt8) : List (List UInt8) := fgetsFrom room [] text

/-- A number as `%lx` takes it: blanks, a sign, a radix, and digits, which only a radix can do
without, if the library lets it. -/
def Spells (libc : Libc) (number : List UInt8) (v : Nat) : Prop :=
  ∃ blanks sign radix digits, number = blanks ++ (sign ++ (radix ++ digits)) ∧
    (∀ c ∈ blanks, isSpace c = true) ∧ (sign = [] ∨ sign = [43] ∨ sign = [45]) ∧
    (radix = [] ∨ radix = [48, 120] ∨ radix = [48, 88]) ∧
    (digits ≠ [] ∨ (libc.bareRadix = true ∧ radix ≠ [])) ∧
    (∀ c ∈ digits, isHex c = true) ∧ v = converted libc.bits (sign == [45]) (hexNumber digits)

/-- A word ends here: the text does, or a blank is next. -/
def Ends (rest : List UInt8) : Prop := ∀ c ∈ rest.head?, isSpace c = true

section Cut

variable {p : UInt8 → Bool} {a b text : List UInt8}

/-- A text is cut behind the bytes that have a property. -/
theorem cut_of_stop (all : ∀ c ∈ a, p c = true) (stop : ∀ c ∈ b.head?, p c = false) :
    (a ++ b).takeWhile p = a ∧ (a ++ b).dropWhile p = b := by
  rw [List.takeWhile_append_of_pos all, List.dropWhile_append_of_pos all]
  cases b with
  | nil => exact ⟨List.append_nil _, rfl⟩
  | cons c rest =>
    have hc := stop c rfl
    rw [List.takeWhile_cons_of_neg (by simp [hc]), List.dropWhile_cons_of_neg (by simp [hc])]
    exact ⟨List.append_nil _, rfl⟩

/-- What follows does not have it. -/
theorem stop_dropWhile (p : UInt8 → Bool) (text : List UInt8) :
    ∀ c ∈ (text.dropWhile p).head?, p c = false := by
  induction text with
  | nil => exact fun c hc => by cases hc
  | cons c rest ih =>
    rw [List.dropWhile_cons]
    split
    · exact ih
    · rename_i hc
      intro d hd
      cases hd
      exact Bool.eq_false_of_not_eq_true hc

theorem mem_takeWhile (p : UInt8 → Bool) (text : List UInt8) :
    ∀ c ∈ text.takeWhile p, p c = true := fun _ hc => List.mem_takeWhile_imp hc

end Cut

section Number

variable {libc : Libc} {v : Nat} {text number rest digits : List UInt8}

theorem isHex_frame {c : UInt8} (h : isHex c = true) :
    isSpace c = false ∧ c ≠ 43 ∧ c ≠ 45 ∧ c ≠ 120 ∧ c ≠ 88 := by
  have hall : ∀ n < 256, isHex (UInt8.ofNat n) = true → isSpace (UInt8.ofNat n) = false ∧
      UInt8.ofNat n ≠ 43 ∧ UInt8.ofNat n ≠ 45 ∧ UInt8.ofNat n ≠ 120 ∧ UInt8.ofNat n ≠ 88 := by
    decide +kernel
  have hc := hall c.toNat c.toNat_lt
  rw [UInt8.ofNat_toNat] at hc
  exact hc h

/-- Where digits begin there is no radix, unless their zero is one. -/
theorem afterRadix_digits (nonempty : digits ≠ []) (all : ∀ c ∈ digits, isHex c = true)
    (stop : ∀ c ∈ rest.head?, c ≠ 120 ∧ c ≠ 88) :
    afterRadix (digits ++ rest) = digits ++ rest := by
  obtain ⟨d, more, rfl⟩ := List.exists_cons_of_ne_nil nonempty
  cases hmore : more ++ rest with
  | nil =>
    rw [List.cons_append, hmore]
    rfl
  | cons x tail =>
    rw [List.cons_append, hmore]
    have hx : ¬ (x = 120 ∨ x = 88) := by
      cases more with
      | nil =>
        rw [List.nil_append] at hmore
        have := stop x (by rw [hmore]; rfl)
        exact not_or.mpr this
      | cons y more =>
        obtain ⟨rfl, _⟩ := List.cons_eq_cons.mp hmore
        have := isHex_frame (all y (List.mem_cons_of_mem _ List.mem_cons_self))
        exact not_or.mpr this.2.2.2
    exact if_neg fun h => hx h.2

/-- A text that neither a blank nor a sign begins is what follows a sign. -/
theorem afterSign_of_sign {sign : List UInt8} {c : UInt8}
    (hsign : sign = [] ∨ sign = [43] ∨ sign = [45]) (hspace : isSpace c = false) (hplus : c ≠ 43)
    (hminus : c ≠ 45) (tail : List UInt8) :
    (∀ x ∈ (sign ++ c :: tail).head?, isSpace x = false) ∧
      afterSign (sign ++ c :: tail) = (sign == [45], c :: tail) := by
  rcases hsign with rfl | rfl | rfl
  · refine ⟨fun x hx => ?_, ?_⟩
    · cases hx
      exact hspace
    · rw [List.nil_append, afterSign, if_neg hminus, if_neg hplus]
      rfl
  · refine ⟨fun x hx => ?_, rfl⟩
    cases hx
    rfl
  · refine ⟨fun x hx => ?_, rfl⟩
    cases hx
    rfl

/-- What follows a radix is found, and neither a blank nor a sign is in front of it. -/
theorem afterRadix_of_radix {radix : List UInt8}
    (hradix : radix = [] ∨ radix = [48, 120] ∨ radix = [48, 88])
    (nonempty : digits ≠ [] ∨ radix ≠ []) (all : ∀ c ∈ digits, isHex c = true)
    (stop : ∀ c ∈ rest.head?, c ≠ 120 ∧ c ≠ 88) :
    afterRadix (radix ++ (digits ++ rest)) = digits ++ rest ∧
      ∃ c tail, radix ++ (digits ++ rest) = c :: tail ∧ isSpace c = false ∧ c ≠ 43 ∧ c ≠ 45 := by
  rcases hradix with rfl | rfl | rfl
  · have nonempty := nonempty.resolve_right fun h => h rfl
    rw [List.nil_append]
    refine ⟨afterRadix_digits nonempty all stop, ?_⟩
    obtain ⟨d, more, rfl⟩ := List.exists_cons_of_ne_nil nonempty
    obtain ⟨hspace, hplus, hminus, _⟩ := isHex_frame (all d List.mem_cons_self)
    exact ⟨d, more ++ rest, rfl, hspace, hplus, hminus⟩
  · exact ⟨rfl, 48, _, rfl, by decide⟩
  · exact ⟨rfl, 48, _, rfl, by decide⟩

/-- A number is taken up to the first byte that cannot belong to it. -/
theorem scanHex_of_spells (spells : Spells libc number v)
    (stop : ∀ c ∈ rest.head?, isHex c = false ∧ c ≠ 120 ∧ c ≠ 88) :
    scanHex libc (number ++ rest) = some (v, rest) := by
  obtain ⟨blanks, sign, radix, digits, rfl, hblanks, hsign, hradix, nonempty, hdigits, rfl⟩ :=
    spells
  have hcut := cut_of_stop hdigits fun c hc => (stop c hc).1
  obtain ⟨hafter, c, tail, hc, hspace, hplus, hminus⟩ :=
    afterRadix_of_radix hradix (nonempty.imp_right And.right) hdigits fun c hc => (stop c hc).2
  obtain ⟨hstart, hsigned⟩ := afterSign_of_sign hsign hspace hplus hminus tail
  have htext : blanks ++ (sign ++ (radix ++ digits)) ++ rest = blanks ++ (sign ++ c :: tail) := by
    rw [← hc]
    simp only [List.append_assoc]
  have taken : ¬ (digits = [] ∧
      ¬ (libc.bareRadix = true ∧ digits ++ rest ≠ radix ++ (digits ++ rest))) := by
    rintro ⟨hdigits, hbare⟩
    obtain ⟨bare, hradix⟩ := nonempty.resolve_left fun h => h hdigits
    exact hbare ⟨bare, fun h => hradix (List.self_eq_append_left.mp h)⟩
  unfold scanHex
  rw [htext, (cut_of_stop hblanks hstart).2, hsigned]
  dsimp only
  rw [← hc, hafter, hcut.1, hcut.2, if_neg taken]

theorem afterSign_cases (text : List UInt8) :
    ∃ sign, text = sign ++ (afterSign text).2 ∧ (sign = [] ∨ sign = [43] ∨ sign = [45]) ∧
      (afterSign text).1 = (sign == [45]) := by
  cases text with
  | nil => exact ⟨[], rfl, .inl rfl, rfl⟩
  | cons c rest =>
    rw [afterSign]
    split
    · rename_i hc
      exact ⟨[45], by rw [hc]; rfl, .inr (.inr rfl), rfl⟩
    · split
      · rename_i hc
        exact ⟨[43], by rw [hc]; rfl, .inr (.inl rfl), rfl⟩
      · exact ⟨[], rfl, .inl rfl, rfl⟩

theorem afterRadix_cases (text : List UInt8) :
    ∃ radix, text = radix ++ afterRadix text ∧
      (radix = [] ∨ radix = [48, 120] ∨ radix = [48, 88]) := by
  unfold afterRadix
  split
  · rename_i zero x rest
    split
    · rename_i h
      obtain ⟨rfl, rfl | rfl⟩ := h
      · exact ⟨[48, 120], rfl, .inr (.inl rfl)⟩
      · exact ⟨[48, 88], rfl, .inr (.inr rfl)⟩
    · exact ⟨[], rfl, .inl rfl⟩
  · exact ⟨[], rfl, .inl rfl⟩

/-- What is taken is a number. -/
theorem spells_of_scanHex (h : scanHex libc text = some (v, rest)) :
    ∃ number, text = number ++ rest ∧ Spells libc number v := by
  obtain ⟨sign, hsign, hsigns, hnegative⟩ := afterSign_cases (text.dropWhile isSpace)
  obtain ⟨radix, hradix, hradixes⟩ := afterRadix_cases (afterSign (text.dropWhile isSpace)).2
  unfold scanHex at h
  dsimp only at h
  split at h
  · cases h
  · rename_i taken
    have nonempty : (afterRadix (afterSign (text.dropWhile isSpace)).2).takeWhile isHex ≠ [] ∨
        (libc.bareRadix = true ∧ radix ≠ []) := by
      by_cases hdigits : (afterRadix (afterSign (text.dropWhile isSpace)).2).takeWhile isHex = []
      · obtain ⟨bare, hbehind⟩ := not_not.mp fun hbare => taken ⟨hdigits, hbare⟩
        exact .inr ⟨bare, fun hnil => hbehind (by rw [hnil] at hradix; exact hradix.symm)⟩
      · exact .inl hdigits
    generalize hbehind : afterRadix (afterSign (text.dropWhile isSpace)).2 = behind at *
    have hjoin : behind.takeWhile isHex ++ behind.dropWhile isHex = behind :=
      List.takeWhile_append_dropWhile
    cases h
    refine ⟨text.takeWhile isSpace ++ (sign ++ (radix ++ behind.takeWhile isHex)), ?_,
      _, sign, radix, _, rfl, mem_takeWhile _ _, hsigns, hradixes, nonempty, mem_takeWhile _ _,
      by rw [hnegative]⟩
    calc text = text.takeWhile isSpace ++ text.dropWhile isSpace :=
          List.takeWhile_append_dropWhile.symm
      _ = text.takeWhile isSpace ++
          (sign ++ (radix ++ (behind.takeWhile isHex ++ behind.dropWhile isHex))) := by
          rw [hjoin, ← hradix, ← hsign]
      _ = _ := by simp only [List.append_assoc]

/-- `"0x "` is 0 for glibc, and no number in the standard. -/
example : scanHex ⟨64, true⟩ [48, 120, 32] = some (0, [32]) ∧
    scanHex ⟨64, false⟩ [48, 120, 32] = none := by decide +kernel

end Number

section Word

variable {width : Nat} {text word rest gap : List UInt8}

/-- A word that is shorter than the width is taken exactly where it ends. -/
theorem scanWord_iff (nonempty : word ≠ []) (short : word.length < width)
    (solid : ∀ c ∈ word, isSpace c = false) :
    scanWord width text = some word ↔
      ∃ gap rest, text = gap ++ (word ++ rest) ∧ (∀ c ∈ gap, isSpace c = true) ∧ Ends rest := by
  have hsolid : ∀ c ∈ word, (!isSpace c) = true := fun c hc => by rw [solid c hc]; rfl
  constructor
  · intro h
    unfold scanWord at h
    dsimp only at h
    split at h
    · cases h
    · rename_i hne
      have hword := Option.some.inj h
      have hfull : (text.dropWhile isSpace).takeWhile (!isSpace ·) = word := by
        rw [← hword, List.take_of_length_le]
        rw [← hword, List.length_take] at short
        omega
      refine ⟨text.takeWhile isSpace, (text.dropWhile isSpace).dropWhile (!isSpace ·), ?_,
        mem_takeWhile _ _, fun c hc => ?_⟩
      · rw [← hfull, List.takeWhile_append_dropWhile, List.takeWhile_append_dropWhile]
      · have := stop_dropWhile (!isSpace ·) (text.dropWhile isSpace) c hc
        simpa using this
  · rintro ⟨gap, rest, rfl, hgap, ends⟩
    have hstop : ∀ c ∈ (word ++ rest).head?, isSpace c = false := by
      obtain ⟨c, more, rfl⟩ := List.exists_cons_of_ne_nil nonempty
      intro d hd
      cases hd
      exact solid c List.mem_cons_self
    unfold scanWord
    rw [(cut_of_stop hgap hstop).2,
      (cut_of_stop hsolid fun c hc => by rw [ends c hc]; rfl).1,
      List.take_of_length_le (Nat.le_of_lt short)]
    exact if_neg nonempty

end Word

section Pieces

variable {room : Nat} {line : List UInt8} {lines : List (List UInt8)}

theorem fgetsFrom_line {read : List UInt8} (fits : read.length + line.length < room)
    (one : 10 ∉ line) (rest : List UInt8) :
    fgetsFrom room read (line ++ 10 :: rest) =
      (read ++ line ++ [10]) :: fgetsFrom room [] rest := by
  induction line generalizing read with
  | nil =>
    rw [List.nil_append, fgetsFrom, List.append_nil]
    exact if_pos (.inl rfl)
  | cons c line ih =>
    rw [List.length_cons] at fits
    have hc : c ≠ 10 := fun h => one (h ▸ List.mem_cons_self)
    have hread : (read ++ [c]).length = read.length + 1 := List.length_append
    have hroom : ¬ room ≤ (read ++ [c]).length := by omega
    rw [List.cons_append, fgetsFrom, if_neg (not_or.mpr ⟨hc, hroom⟩), ih (by omega)
      fun h => one (List.mem_cons_of_mem _ h)]
    simp only [List.append_assoc, List.singleton_append]

/-- The pieces of short lines are the lines, each with its end. -/
theorem pieces_frame (short : ∀ line ∈ lines, line.length < room ∧ 10 ∉ line) :
    pieces room (Lines.frame 10 lines) = lines.map (· ++ [10]) := by
  induction lines with
  | nil => rfl
  | cons line lines ih =>
    obtain ⟨hshort, hone⟩ := short line List.mem_cons_self
    rw [Lines.frame_cons]
    unfold pieces at ih ⊢
    rw [fgetsFrom_line (by simpa using hshort) hone, List.nil_append,
      ih fun l hl => short l (List.mem_cons_of_mem _ hl)]
    rfl

end Pieces

end Rtbus.Scanf
