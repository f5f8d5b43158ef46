import Mathlib.Logic.Function.Iterate

/-!
# Linear feedback shift registers

A register of `w` bits shifts to the left, and if a one leaves it at the top a word is added to what
stays. Bits are fed in at the top. Addition is exclusive or, and all of this is linear. If the word
is odd, no shift takes a register that is not zero to zero. So bits that all lie within the width of
the register, and are not all zero, leave it different from zero (`feed_burst`).
-/

namespace Rtbus.ShiftRegister

variable {w : Nat} (poly : BitVec w)

/-- One shift. -/
def shift (s : BitVec w) : BitVec w := if s.msb then s <<< 1 ^^^ poly else s <<< 1

/-- A bit at the top. -/
def top (bit : Bool) : BitVec w := if bit then BitVec.intMin w else 0#w

/-- Bits are fed in. -/
def feed (bits : List Bool) (s : BitVec w) : BitVec w :=
  bits.foldl (fun s bit => shift poly (s ^^^ top bit)) s

/-- Bits beside each other, the first one at the top. -/
def loaded : List Bool → BitVec w
  | [] => 0#w
  | bit :: bits => top bit ^^^ (loaded bits >>> 1)

section Linear

theorem xor_xor_xor_comm (a b c d : BitVec w) : a ^^^ b ^^^ (c ^^^ d) = a ^^^ c ^^^ (b ^^^ d) := by
  rw [BitVec.xor_assoc a b, ← BitVec.xor_assoc b, BitVec.xor_comm b c, BitVec.xor_assoc c,
    ← BitVec.xor_assoc a]

/-- A shift is one to the left, and the polynomial where a bit fell out. -/
theorem shift_eq (s : BitVec w) : shift poly s = s <<< 1 ^^^ if s.msb then poly else 0#w := by
  unfold shift
  split
  · rfl
  · exact BitVec.xor_zero.symm

/-- Shifting is linear. -/
theorem shift_xor (a b : BitVec w) : shift poly (a ^^^ b) = shift poly a ^^^ shift poly b := by
  have hfeed : (if (a ^^^ b).msb then poly else 0#w) =
      (if a.msb then poly else 0#w) ^^^ if b.msb then poly else 0#w := by
    rw [BitVec.msb_xor]
    cases a.msb <;> cases b.msb <;> simp
  rw [shift_eq, shift_eq, shift_eq, hfeed, BitVec.shiftLeft_xor_distrib, xor_xor_xor_comm]

/-- So is putting in a bit at the top. -/
theorem top_xor (a b : Bool) : (top (a ^^ b) : BitVec w) = top a ^^^ top b := by
  cases a <;> cases b <;> simp [top]

/-- Two streams are fed in at once. -/
theorem feed_xor {a b : List Bool} (h : a.length = b.length) (s t : BitVec w) :
    feed poly (List.zipWith xor a b) (s ^^^ t) = feed poly a s ^^^ feed poly b t := by
  induction a generalizing b s t with
  | nil =>
    obtain rfl : b = [] := List.length_eq_zero_iff.mp h.symm
    rfl
  | cons x a ih =>
    cases b with
    | nil => cases h
    | cons y b =>
      show feed poly (List.zipWith xor a b) (shift poly (s ^^^ t ^^^ top (x ^^ y))) = _
      rw [top_xor, xor_xor_xor_comm, shift_xor, ih (Nat.succ.inj h)]
      rfl

/-- Bits are fed one behind the other. -/
theorem feed_append (a b : List Bool) (s : BitVec w) :
    feed poly (a ++ b) s = feed poly b (feed poly a s) := List.foldl_append

/-- Feeding zeros is shifting. -/
theorem feed_zeros (n : Nat) (s : BitVec w) :
    feed poly (List.replicate n false) s = (shift poly)^[n] s := by
  induction n generalizing s with
  | zero => rfl
  | succ n ih =>
    show feed poly (List.replicate n false) (shift poly (s ^^^ 0#w)) = _
    rw [BitVec.xor_zero, ih, Function.iterate_succ_apply]

theorem shift_zero : shift poly 0#w = 0#w := by simp [shift]

theorem iterate_zero (n : Nat) : (shift poly)^[n] 0#w = 0#w := by
  induction n with
  | zero => rfl
  | succ n ih => rw [Function.iterate_succ_apply, shift_zero, ih]

end Linear

section Loaded

variable {poly}

theorem getLsbD_top {bit : Bool} {i : Nat} (h : i + 1 < w) : (top bit : BitVec w).getLsbD i = false := by
  unfold top
  split
  · rw [BitVec.getLsbD_intMin]
    simp only [decide_eq_false_iff_not]
    omega
  · exact BitVec.getLsbD_zero

/-- Below the loaded bits there are zeros. -/
theorem loaded_low {bits : List Bool} {i : Nat} (h : i + bits.length < w) :
    (loaded bits : BitVec w).getLsbD i = false := by
  induction bits generalizing i with
  | nil => exact BitVec.getLsbD_zero
  | cons bit bits ih =>
    rw [List.length_cons] at h
    rw [loaded, BitVec.getLsbD_xor, getLsbD_top (by omega), BitVec.getLsbD_ushiftRight,
      ih (by omega)]
    rfl

/-- Loading is linear in the parts of the bits. -/
theorem loaded_append (a b : List Bool) :
    (loaded (a ++ b) : BitVec w) = loaded a ^^^ loaded b >>> a.length := by
  induction a with
  | nil =>
    show loaded b = 0#w ^^^ loaded b >>> 0
    rw [BitVec.zero_xor, BitVec.ushiftRight_zero]
  | cons bit a ih =>
    rw [List.cons_append, loaded, loaded, ih, BitVec.ushiftRight_xor_distrib, ← BitVec.xor_assoc,
      ← BitVec.shiftRight_add, List.length_cons]

/-- A register whose lowest bit is zero comes from the one that is shifted to the right. -/
theorem shift_ushiftRight {x : BitVec w} (low : x.getLsbD 0 = false) : shift poly (x >>> 1) = x := by
  have hmsb : (x >>> 1).msb = false := by
    rw [BitVec.msb_ushiftRight]
    rfl
  unfold shift
  rw [hmsb, if_neg Bool.false_ne_true]
  apply BitVec.eq_of_getLsbD_eq
  intro i hi
  cases i with
  | zero => simp [low]
  | succ i => simp [hi, Nat.add_comm 1 i]

/-- No more bits than the register is wide may as well be added to it at once. -/
theorem feed_eq {bits : List Bool} (h : bits.length ≤ w) (s : BitVec w) :
    feed poly bits s = (shift poly)^[bits.length] (s ^^^ loaded bits) := by
  induction bits generalizing s with
  | nil => exact BitVec.xor_zero.symm
  | cons bit bits ih =>
    rw [List.length_cons] at h
    show feed poly bits (shift poly (s ^^^ top bit)) = _
    rw [ih (by omega), List.length_cons, Function.iterate_succ_apply, loaded, ← BitVec.xor_assoc,
      shift_xor poly (s ^^^ top bit), shift_ushiftRight (loaded_low (by omega))]

end Loaded

section Odd

variable {poly} (odd : poly.getLsbD 0 = true)

include odd

/-- No shift of a register that is not zero makes it zero, as the polynomial ends in one. -/
theorem shift_ne_zero {s : BitVec w} (h : s ≠ 0#w) : shift poly s ≠ 0#w := by
  intro hzero
  unfold shift at hzero
  split at hzero
  · have hbit := congrArg (fun x : BitVec w => x.getLsbD 0) hzero
    simp [odd] at hbit
  · rename_i hmsb
    apply h
    apply BitVec.eq_of_getLsbD_eq
    intro i hi
    rw [BitVec.getLsbD_zero]
    rcases Nat.lt_or_ge (i + 1) w with hlow | htop
    · have hbit := congrArg (fun x : BitVec w => x.getLsbD (i + 1)) hzero
      simpa [hlow, hi] using hbit
    · rw [BitVec.msb_eq_getLsbD_last] at hmsb
      rw [show i = w - 1 by omega]
      simpa using hmsb

/-- Nor do any number of shifts. -/
theorem iterate_ne_zero (n : Nat) {s : BitVec w} (h : s ≠ 0#w) : (shift poly)^[n] s ≠ 0#w := by
  induction n generalizing s with
  | zero => exact h
  | succ n ih =>
    rw [Function.iterate_succ_apply]
    exact ih (shift_ne_zero odd h)

/-- Bits that begin with a one and are no more than the register is wide. -/
theorem feed_ne_zero (pos : 0 < w) {bits : List Bool} (h : bits.length + 1 ≤ w) :
    feed poly (true :: bits) 0#w ≠ 0#w := by
  rw [feed_eq (by rwa [List.length_cons]), BitVec.zero_xor]
  refine iterate_ne_zero odd _ fun hzero => ?_
  have hmsb := congrArg BitVec.msb hzero
  rw [loaded, BitVec.msb_xor, BitVec.msb_ushiftRight, top, if_pos rfl, BitVec.msb_intMin] at hmsb
  simp [pos] at hmsb

/-- Ones that all lie within as many positions as the register is wide. -/
theorem feed_burst (pos : 0 < w) {bits : List Bool} (some_ : true ∈ bits) {first : Nat}
    (burst : ∀ k, bits[k]? = some true → first ≤ k ∧ k < first + w) : feed poly bits 0#w ≠ 0#w := by
  -- the zeros in front change nothing, and those behind the burst shift what it has left
  obtain ⟨before, rest, rfl, hbefore⟩ := List.eq_append_cons_of_mem some_
  have zeros : before = List.replicate before.length false :=
    List.eq_replicate_iff.mpr ⟨rfl, fun bit hbit => by
      cases bit with
      | false => rfl
      | true => exact absurd hbit hbefore⟩
  have hfirst := (burst before.length (by simp)).1
  have behind : (rest.drop (w - 1)) = List.replicate (rest.drop (w - 1)).length false := by
    refine List.eq_replicate_iff.mpr ⟨rfl, fun bit hbit => ?_⟩
    obtain ⟨k, hk⟩ := List.mem_iff_getElem?.mp hbit
    cases bit with
    | false => rfl
    | true =>
      rw [List.getElem?_drop] at hk
      have hlate := (burst (before.length + (w - 1 + k) + 1) (by
        rw [List.getElem?_append_right (by omega),
          show before.length + (w - 1 + k) + 1 - before.length = w - 1 + k + 1 by omega,
          List.getElem?_cons_succ, hk])).2
      omega
  have hsplit : before ++ true :: rest =
      before ++ (true :: rest.take (w - 1)) ++ rest.drop (w - 1) := by
    rw [List.append_assoc, List.cons_append, List.take_append_drop]
  rw [hsplit, feed_append, feed_append, zeros, feed_zeros, iterate_zero, behind, feed_zeros]
  refine iterate_ne_zero odd _ (feed_ne_zero odd pos ?_)
  rw [List.length_take]
  omega

end Odd

end Rtbus.ShiftRegister
