import Mathlib.Algebra.Group.Nat.Defs
import Mathlib.Data.Nat.Basic

/-!
# Byte-addressed memory

Memory is a function from addresses to bytes. Words of four bytes are stored little-endian. What
an operation does to the rest of memory is said with `Memory.AgreeOff`: two memories that agree
everywhere outside a range of addresses. Every operation below comes with the value it leaves in
its range and with that frame.
-/

namespace Rtbus

/-- A byte-addressed memory. -/
abbrev Memory := Nat → UInt8

namespace Memory

/-- A 32-bit little-endian word. -/
def load32 (m : Memory) (a : Nat) : Nat :=
  (m a).toNat + (m (a + 1)).toNat * 2 ^ 8 + (m (a + 2)).toNat * 2 ^ 16 + (m (a + 3)).toNat * 2 ^ 24

/-- Store one byte. -/
def store8 (m : Memory) (a : Nat) (b : UInt8) : Memory := fun x => if x = a then b else m x

/-- Store a 32-bit little-endian word. -/
def store32 (m : Memory) (a v : Nat) : Memory := fun x =>
  if x = a then UInt8.ofNat v
  else if x = a + 1 then UInt8.ofNat (v / 2 ^ 8)
  else if x = a + 2 then UInt8.ofNat (v / 2 ^ 16)
  else if x = a + 3 then UInt8.ofNat (v / 2 ^ 24)
  else m x

/-- Copy bytes to an address. -/
def copy (m : Memory) (a : Nat) (bytes : List UInt8) : Memory := fun x =>
  if a ≤ x then (bytes[x - a]?).getD (m x) else m x

/-- Fill a range with one byte. -/
def fill (m : Memory) (a len : Nat) (b : UInt8) : Memory := fun x =>
  if a ≤ x ∧ x < a + len then b else m x

/-- The bytes of a range, in order. -/
def slice (m : Memory) (a : Nat) : Nat → List UInt8
  | 0 => []
  | len + 1 => m a :: slice m (a + 1) len

/-- Two memories agree everywhere outside the addresses from `lo` to below `hi`. -/
def AgreeOff (m m' : Memory) (lo hi : Nat) : Prop := ∀ x, x < lo ∨ hi ≤ x → m' x = m x

theorem AgreeOff.refl (m : Memory) (lo hi : Nat) : AgreeOff m m lo hi := fun _ _ => rfl

/-- Two memories that agree with a third off a range agree with each other there. -/
theorem AgreeOff.trans {m₁ m₂ m₃ : Memory} {lo hi : Nat} (h₁ : AgreeOff m₁ m₂ lo hi)
    (h₂ : AgreeOff m₂ m₃ lo hi) : AgreeOff m₁ m₃ lo hi :=
  fun x hx => (h₂ x hx).trans (h₁ x hx)

/-- They agree off a larger range as well. -/
theorem AgreeOff.widen {m m' : Memory} {lo hi lo' hi' : Nat} (h : AgreeOff m m' lo hi)
    (hlo : lo' ≤ lo) (hhi : hi ≤ hi') : AgreeOff m m' lo' hi' :=
  fun x hx => h x (by omega)

/-- Storing a byte changes this byte. -/
theorem store8_agreeOff (m : Memory) (a : Nat) (b : UInt8) : AgreeOff m (m.store8 a b) a (a + 1) := by
  intro x hx
  exact if_neg (by omega)

/-- Storing a word changes its four bytes. -/
theorem store32_agreeOff (m : Memory) (a v : Nat) : AgreeOff m (m.store32 a v) a (a + 4) := by
  intro x hx
  unfold store32
  rw [if_neg (by omega), if_neg (by omega), if_neg (by omega), if_neg (by omega)]

/-- Filling changes the bytes that are filled. -/
theorem fill_agreeOff (m : Memory) (a len : Nat) (b : UInt8) :
    AgreeOff m (m.fill a len b) a (a + len) := by
  intro x hx
  exact if_neg (by omega)

/-- Copying changes the bytes of the target. -/
theorem copy_agreeOff (m : Memory) (a : Nat) (bytes : List UInt8) :
    AgreeOff m (m.copy a bytes) a (a + bytes.length) := by
  intro x hx
  unfold copy
  split
  · rw [List.getElem?_eq_none (by omega), Option.getD_none]
  · rfl

@[simp] theorem store8_self (m : Memory) (a : Nat) (b : UInt8) : m.store8 a b a = b := if_pos rfl

/-- A word has 32 bits. -/
theorem load32_lt (m : Memory) (a : Nat) : m.load32 a < 2 ^ 32 := by
  have h0 := (m a).toNat_lt
  have h1 := (m (a + 1)).toNat_lt
  have h2 := (m (a + 2)).toNat_lt
  have h3 := (m (a + 3)).toNat_lt
  unfold load32
  omega

/-- A word depends on its four bytes only. -/
theorem load32_congr {m m' : Memory} {a : Nat} (h : ∀ x, a ≤ x → x < a + 4 → m' x = m x) :
    m'.load32 a = m.load32 a := by
  unfold load32
  rw [h a (by omega) (by omega), h (a + 1) (by omega) (by omega),
    h (a + 2) (by omega) (by omega), h (a + 3) (by omega) (by omega)]

/-- A word outside the range that two memories may differ in reads the same in both. -/
theorem AgreeOff.load32_eq {m m' : Memory} {lo hi a : Nat} (h : AgreeOff m m' lo hi)
    (out : a + 4 ≤ lo ∨ hi ≤ a) : m'.load32 a = m.load32 a :=
  load32_congr fun x _ _ => h x (by omega)

/-- A word of 32 bits is read back. -/
theorem load32_store32 (m : Memory) (a : Nat) {v : Nat} (hv : v < 2 ^ 32) :
    (m.store32 a v).load32 a = v := by
  have b0 : m.store32 a v a = UInt8.ofNat v := if_pos rfl
  have b1 : m.store32 a v (a + 1) = UInt8.ofNat (v / 2 ^ 8) := by
    unfold store32
    rw [if_neg (by omega), if_pos rfl]
  have b2 : m.store32 a v (a + 2) = UInt8.ofNat (v / 2 ^ 16) := by
    unfold store32
    rw [if_neg (by omega), if_neg (by omega), if_pos rfl]
  have b3 : m.store32 a v (a + 3) = UInt8.ofNat (v / 2 ^ 24) := by
    unfold store32
    rw [if_neg (by omega), if_neg (by omega), if_neg (by omega), if_pos rfl]
  unfold load32
  rw [b0, b1, b2, b3]
  simp only [UInt8.toNat_ofNat']
  omega

@[simp] theorem slice_length (m : Memory) (a len : Nat) : (m.slice a len).length = len := by
  induction len generalizing a with
  | zero => rfl
  | succ len ih => simp only [slice, List.length_cons, ih]

/-- The bytes of a slice are those of the memory. -/
theorem getElem?_slice (m : Memory) {a len i : Nat} (h : i < len) :
    (m.slice a len)[i]? = some (m (a + i)) := by
  induction len generalizing a i with
  | zero => omega
  | succ len ih =>
    cases i with
    | zero => rfl
    | succ i =>
      rw [slice, List.getElem?_cons_succ, ih (by omega), show a + 1 + i = a + (i + 1) by omega]

/-- Slices are equal if their bytes are. -/
theorem slice_eq_iff {m m' : Memory} {a a' len : Nat} :
    m.slice a len = m'.slice a' len ↔ ∀ i, i < len → m (a + i) = m' (a' + i) := by
  constructor
  · intro h i hi
    have := congrArg (fun l : List UInt8 => l[i]?) h
    simp only [getElem?_slice _ hi] at this
    exact Option.some.inj this
  · intro h
    refine List.ext_getElem? fun i => ?_
    by_cases hi : i < len
    · rw [getElem?_slice _ hi, getElem?_slice _ hi, h i hi]
    · rw [List.getElem?_eq_none (by rw [slice_length]; omega),
        List.getElem?_eq_none (by rw [slice_length]; omega)]

/-- What a copied slice leaves at an address. -/
theorem copy_slice_apply (m src : Memory) (a from_ len x : Nat) :
    m.copy a (src.slice from_ len) x = if a ≤ x ∧ x < a + len then src (from_ + (x - a)) else m x := by
  unfold copy
  by_cases hlo : a ≤ x
  · rw [if_pos hlo]
    by_cases hhi : x < a + len
    · rw [if_pos ⟨hlo, hhi⟩, getElem?_slice _ (by omega), Option.getD_some]
    · rw [if_neg fun h => hhi h.2, List.getElem?_eq_none (by rw [slice_length]; omega),
        Option.getD_none]
  · rw [if_neg hlo, if_neg fun h => hlo h.1]

/-- A slice depends on its own bytes only. -/
theorem slice_congr {m m' : Memory} {a len : Nat} (h : ∀ x, a ≤ x → x < a + len → m' x = m x) :
    m'.slice a len = m.slice a len := by
  induction len generalizing a with
  | zero => rfl
  | succ len ih =>
    simp only [slice]
    rw [h a (Nat.le_refl a) (by omega), ih fun x hx hx' => h x (by omega) (by omega)]

/-- The bytes copied to an address are read back from it. -/
theorem slice_copy (m : Memory) (a : Nat) (bytes : List UInt8) :
    (m.copy a bytes).slice a bytes.length = bytes := by
  induction bytes generalizing m a with
  | nil => rfl
  | cons b bytes ih =>
    have head : m.copy a (b :: bytes) a = b := by
      unfold copy
      rw [if_pos (Nat.le_refl a), Nat.sub_self]
      rfl
    simp only [List.length_cons, slice]
    rw [head, slice_congr (m := m.copy (a + 1) bytes), ih]
    intro x hx hx'
    unfold copy
    rw [if_pos (by omega), if_pos hx, show x - a = (x - (a + 1)) + 1 by omega,
      List.getElem?_cons_succ]

/-- A slice in two parts. -/
theorem slice_add (m : Memory) (a n k : Nat) :
    m.slice a (n + k) = m.slice a n ++ m.slice (a + n) k := by
  induction n generalizing a with
  | zero => rw [Nat.zero_add, Nat.add_zero]; rfl
  | succ n ih =>
    rw [show n + 1 + k = n + k + 1 by omega, show a + (n + 1) = a + 1 + n by omega]
    simp only [slice, List.cons_append]
    rw [ih]

/-- The first bytes of a slice. -/
theorem take_slice (m : Memory) (a : Nat) {k len : Nat} (h : k ≤ len) :
    (m.slice a len).take k = m.slice a k := by
  obtain ⟨more, rfl⟩ := Nat.exists_eq_add_of_le h
  rw [slice_add, List.take_left' (slice_length ..)]

/-- A slice outside the range that two memories may differ in is the same in both. -/
theorem AgreeOff.slice_eq {m m' : Memory} {lo hi a len : Nat} (h : AgreeOff m m' lo hi)
    (out : a + len ≤ lo ∨ hi ≤ a) : m'.slice a len = m.slice a len :=
  slice_congr fun x _ _ => h x (by omega)

/-- The bytes of a slice, if the slice is known. -/
theorem apply_of_slice {m m' : Memory} {a len : Nat} (h : m.slice a len = m'.slice a len) {x : Nat}
    (lo : a ≤ x) (hi : x < a + len) : m x = m' x := by
  have := slice_eq_iff.mp h (x - a) (by omega)
  rwa [show a + (x - a) = x by omega] at this

end Memory

/-- The two bytes of a word give the word. -/
theorem word_of_bytes (word : UInt16) :
    (word >>> 8).toUInt8.toUInt16 <<< 8 ||| word.toUInt8.toUInt16 = word := by
  have hhigh : word.toNat / 2 ^ 8 < 2 ^ 8 := by
    have := word.toNat_lt
    omega
  have hlow : word.toNat % 2 ^ 8 < 2 ^ 8 := Nat.mod_lt _ (by decide)
  apply UInt16.toNat_inj.mp
  have hshift : ((word >>> 8).toUInt8.toUInt16 <<< 8).toNat = (word.toNat / 2 ^ 8) <<< 8 := by
    simp [Nat.shiftRight_eq_div_pow, Nat.shiftLeft_eq]
    omega
  rw [UInt16.toNat_or, hshift, UInt8.toNat_toUInt16, UInt16.toNat_toUInt8,
    ← Nat.shiftLeft_add_eq_or_of_lt hlow, Nat.shiftLeft_eq]
  omega

end Rtbus
