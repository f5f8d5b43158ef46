import Rtbus.Base.Tiling
import Rtbus.Pool.Bmalloc

/-!
# What the headers of a pool say

`Tiles m a bs c` says that the header words from `a` on describe the blocks `bs`, one behind the
other, and that `c` is the address behind the last. Every operation of the allocator changes
header words in one place, so `Tiles.splice` is the form its effect takes: the blocks before and
behind that place are described as before.

The two scans are characterised here against the list of blocks.
-/

namespace Rtbus.Pool

open Rtbus.Tiling

/-- The headers from `a` on describe the blocks `bs`, which end at `c`. -/
def Tiles (m : Memory) : Nat → List Block → Nat → Prop
  | a, [], c => a = c
  | a, b :: bs, c =>
    isBusy m a = b.busy ∧ next m a = a + 8 + b.size ∧ 4 ≤ b.size ∧ b.size % 4 = 0 ∧
      Tiles m (a + 8 + b.size) bs c

/-! ## Header words -/

/-- A block that is marked is busy. -/
@[simp] theorem isBusy_setBusy (m : Memory) (a index : Nat) : isBusy (setBusy m a index) a = true := by
  unfold isBusy setBusy
  rw [Memory.store8_self, UInt8.toNat_ofNat', bne_iff_ne]
  omega

/-- One that is cleared is not. -/
@[simp] theorem isBusy_clearBusy (m : Memory) (a : Nat) : isBusy (clearBusy m a) a = false := by
  unfold isBusy clearBusy
  rw [Memory.store8_self, UInt8.toNat_ofNat', bne_eq_false_iff_eq]
  omega

/-- The mark is one byte of the header. -/
theorem setBusy_agreeOff (m : Memory) (a index : Nat) :
    Memory.AgreeOff m (setBusy m a index) a (a + 1) := Memory.store8_agreeOff m a _

/-- So is clearing it. -/
theorem clearBusy_agreeOff (m : Memory) (a : Nat) : Memory.AgreeOff m (clearBusy m a) a (a + 1) :=
  Memory.store8_agreeOff m a _

/-- The pointer to the next block is the second word of the header. -/
theorem setNext_agreeOff (m : Memory) (a p : Nat) :
    Memory.AgreeOff m (setNext m a p) (a + 4) (a + 8) := Memory.store32_agreeOff m (a + 4) p

/-- It is read back. -/
theorem next_setNext (m : Memory) (a : Nat) {p : Nat} (hp : p < 2 ^ 32) :
    next (setNext m a p) a = p := Memory.load32_store32 _ _ hp

/-- A flag byte outside the range that two memories may differ in. -/
theorem isBusy_of_agreeOff {m m' : Memory} {lo hi a : Nat} (h : Memory.AgreeOff m m' lo hi)
    (out : a < lo ∨ hi ≤ a) : isBusy m' a = isBusy m a := by
  unfold isBusy
  rw [h a out]

/-- A `next` word outside the range that two memories may differ in. -/
theorem next_of_agreeOff {m m' : Memory} {lo hi a : Nat} (h : Memory.AgreeOff m m' lo hi)
    (out : a + 8 ≤ lo ∨ hi ≤ a + 4) : next m' a = next m a :=
  h.load32_eq (by omega)

/-! ## Tilings -/

/-- The tiles end where their sizes add up to. -/
theorem Tiles.end_eq {m : Memory} {a c : Nat} {bs : List Block} (h : Tiles m a bs c) :
    c = a + extent 8 bs := by
  induction bs generalizing a with
  | nil => exact h.symm
  | cons b bs ih =>
    rw [ih h.2.2.2.2, extent_cons]
    omega

/-- A tiling depends on the bytes of its own range only. -/
theorem Tiles.congr {m m' : Memory} {a c : Nat} {bs : List Block} (h : Tiles m a bs c)
    (same : ∀ x, a ≤ x → x < c → m' x = m x) : Tiles m' a bs c := by
  induction bs generalizing a with
  | nil => exact h
  | cons b bs ih =>
    obtain ⟨busy, nxt, four, align, rest⟩ := h
    have hc := rest.end_eq
    refine ⟨?_, ?_, four, align, ih rest fun x hx hx' => same x (by omega) hx'⟩
    · rw [← busy]
      unfold isBusy
      rw [same a (Nat.le_refl a) (by omega)]
    · rw [← nxt]
      exact Memory.load32_congr fun x _ _ => same x (by omega) (by omega)

/-- Tiles in two parts. -/
theorem tiles_append {m : Memory} {a c : Nat} {xs ys : List Block} :
    Tiles m a (xs ++ ys) c ↔ Tiles m a xs (a + extent 8 xs) ∧ Tiles m (a + extent 8 xs) ys c := by
  induction xs generalizing a with
  | nil => exact ⟨fun h => ⟨rfl, h⟩, fun h => h.2⟩
  | cons x xs ih =>
    simp only [List.cons_append, Tiles, ih, extent_cons]
    rw [show a + 8 + x.size + extent 8 xs = a + (8 + x.size + extent 8 xs) by omega]
    constructor
    · rintro ⟨h1, h2, h3, h4, h5, h6⟩
      exact ⟨⟨h1, h2, h3, h4, h5⟩, h6⟩
    · rintro ⟨⟨h1, h2, h3, h4, h5⟩, h6⟩
      exact ⟨h1, h2, h3, h4, h5, h6⟩

/-- The headers determine the blocks. -/
theorem Tiles.unique {m : Memory} {a c : Nat} {xs ys : List Block} (hx : Tiles m a xs c)
    (hy : Tiles m a ys c) : xs = ys := by
  induction xs generalizing a ys with
  | nil =>
    cases ys with
    | nil => rfl
    | cons y ys =>
      have hend := hy.end_eq
      have hstart : a = c := hx
      rw [extent_cons] at hend
      omega
  | cons x xs ih =>
    cases ys with
    | nil =>
      have hend := hx.end_eq
      have hstart : a = c := hy
      rw [extent_cons] at hend
      omega
    | cons y ys =>
      obtain ⟨xbusy, xnext, _, _, xrest⟩ := hx
      obtain ⟨ybusy, ynext, _, _, yrest⟩ := hy
      have hsize : y.size = x.size := by omega
      have hxy : x = y := by
        obtain ⟨_, _⟩ := x
        obtain ⟨_, _⟩ := y
        cases hsize
        cases xbusy.symm.trans ybusy
        rfl
      rw [hsize] at yrest
      rw [hxy, ih xrest yrest]

/-- One block as a tiling. -/
theorem tiles_singleton {m : Memory} {a c : Nat} {b : Block} :
    Tiles m a [b] c ↔ isBusy m a = b.busy ∧ next m a = a + 8 + b.size ∧ 4 ≤ b.size ∧
      b.size % 4 = 0 ∧ a + 8 + b.size = c := Iff.rfl

/-- Replacing the description of one stretch of a pool, the memory outside it unchanged. -/
theorem Tiles.splice {m m' : Memory} {a c : Nat} {pre mid mid' post : List Block}
    (h : Tiles m a (pre ++ (mid ++ post)) c) (same : extent 8 mid' = extent 8 mid)
    (agree : Memory.AgreeOff m m' (a + extent 8 pre) (a + extent 8 pre + extent 8 mid))
    (hmid : Tiles m' (a + extent 8 pre) mid' (a + extent 8 pre + extent 8 mid)) :
    Tiles m' a (pre ++ (mid' ++ post)) c := by
  obtain ⟨hpre, hrest⟩ := tiles_append.mp h
  obtain ⟨_, hpost⟩ := tiles_append.mp hrest
  refine tiles_append.mpr ⟨hpre.congr fun x _ hx => agree x (.inl hx), tiles_append.mpr ⟨?_, ?_⟩⟩
  · rw [same]
    exact hmid
  · rw [same]
    exact hpost.congr fun x hx _ => agree x (.inr hx)

/-- Blocks are word aligned. -/
theorem Tiles.extent_mod {m : Memory} {a c : Nat} {bs : List Block} (h : Tiles m a bs c) :
    extent 8 bs % 4 = 0 := by
  induction bs generalizing a with
  | nil => rfl
  | cons b bs ih =>
    have := ih h.2.2.2.2
    have := h.2.2.2.1
    rw [extent_cons]
    omega

/-! ## The scans -/

/-- The scan for a hole finds a free block that is large enough, or there is none. -/
theorem findHole_spec {m : Memory} {a last n : Nat} {bs : List Block} (tiles : Tiles m a bs last)
    (bound : last < 2 ^ 32) {fuel : Nat} (enough : bs.length < fuel) :
    (findHole m last n fuel a = some none ∧ ∀ b ∈ bs, b.busy = false → b.size < n) ∨
    ∃ pre size post, bs = pre ++ ⟨false, size⟩ :: post ∧ n ≤ size ∧
      (∀ b ∈ pre, b.busy = false → b.size < n) ∧
      findHole m last n fuel a = some (some (a + extent 8 pre)) := by
  induction bs generalizing a fuel with
  | nil =>
    obtain ⟨fuel, rfl⟩ : ∃ k, fuel = k + 1 := ⟨fuel - 1, by simp at enough; omega⟩
    cases tiles
    refine .inl ⟨?_, by simp⟩
    simp only [findHole, Nat.lt_irrefl, ↓reduceIte]
  | cons b bs ih =>
    obtain ⟨fuel, rfl⟩ : ∃ k, fuel = k + 1 := ⟨fuel - 1, by simp at enough; omega⟩
    obtain ⟨busy, nxt, four, align, rest⟩ := tiles
    have hend := rest.end_eq
    have hlt : a < last := by omega
    have hsize : sub32 (sub32 (next m a) a) 8 = b.size := by
      rw [nxt]
      unfold sub32
      omega
    simp only [findHole, hlt, ↓reduceIte, hsize, busy]
    by_cases hfit : b.busy = false ∧ b.size ≥ n
    · refine .inr ⟨[], b.size, bs, ?_, hfit.2, by simp, ?_⟩
      · rw [← hfit.1]
        rfl
      · rw [if_pos hfit]
        rfl
    · rw [if_neg hfit, nxt]
      have cons : ∀ {cs : List Block}, (∀ c ∈ cs, c.busy = false → c.size < n) →
          ∀ c ∈ b :: cs, c.busy = false → c.size < n := by
        intro cs hall c hc hfree
        rcases List.mem_cons.mp hc with rfl | hc
        · exact Nat.lt_of_not_le fun hle => hfit ⟨hfree, hle⟩
        · exact hall c hc hfree
      have enough' : bs.length < fuel := by simpa using enough
      rcases ih rest enough' with ⟨hnone, hall⟩ | hfound
      · exact .inl ⟨hnone, cons hall⟩
      · obtain ⟨pre, size, post, rfl, hle, hpre, hres⟩ := hfound
        have haddr : a + 8 + b.size + extent 8 pre = a + extent 8 (b :: pre) := by
          rw [extent_cons]
          omega
        exact .inr ⟨b :: pre, size, post, rfl, hle, cons hpre, by rw [hres, haddr]⟩

/-- The scan for a payload finds its block and the block before it, or the address is not that of a
payload. -/
theorem findBlock_spec {m : Memory} {a last ptr : Nat} {bs : List Block} (prev : Nat)
    (tiles : Tiles m a bs last) (bound : last < 2 ^ 32) {fuel : Nat} (enough : bs.length < fuel) :
    (findBlock m last ptr fuel prev a = some none ∧
      ∀ pre b post, bs = pre ++ b :: post → ptr ≠ a + extent 8 pre + 8) ∨
    ∃ pre b post prevAddr, bs = pre ++ b :: post ∧ ptr = a + extent 8 pre + 8 ∧
      findBlock m last ptr fuel prev a = some (some (prevAddr, a + extent 8 pre)) ∧
      (pre = [] ∧ prevAddr = prev ∨ ∃ pre' q, pre = pre' ++ [q] ∧ prevAddr = a + extent 8 pre') := by
  induction bs generalizing a fuel prev with
  | nil =>
    obtain ⟨fuel, rfl⟩ : ∃ k, fuel = k + 1 := ⟨fuel - 1, by simp at enough; omega⟩
    cases tiles
    refine .inl ⟨?_, by simp⟩
    simp only [findBlock, Nat.lt_irrefl, ↓reduceIte]
  | cons b bs ih =>
    obtain ⟨fuel, rfl⟩ : ∃ k, fuel = k + 1 := ⟨fuel - 1, by simp at enough; omega⟩
    obtain ⟨_, nxt, four, _, rest⟩ := tiles
    have hend := rest.end_eq
    have hlt : a < last := by omega
    have hpay : wrap (a + 8) = a + 8 := Nat.mod_eq_of_lt (by omega)
    simp only [findBlock, hlt, ↓reduceIte, hpay]
    by_cases hhere : ptr = a + 8
    · rw [if_pos hhere]
      exact .inr ⟨[], b, bs, prev, rfl, hhere, rfl, .inl ⟨rfl, rfl⟩⟩
    · rw [if_neg hhere, nxt]
      have enough' : bs.length < fuel := by simpa using enough
      rcases ih a rest enough' with
        ⟨hnone, hall⟩ | ⟨pre, c, post, prevAddr, rfl, hptr, hres, hprev⟩
      · refine .inl ⟨hnone, ?_⟩
        intro pre c post heq
        cases pre with
        | nil => exact hhere
        | cons d pre =>
          simp only [List.cons_append, List.cons.injEq] at heq
          have := hall pre c post heq.2
          rw [← heq.1, extent_cons]
          omega
      · have haddr : a + 8 + b.size + extent 8 pre = a + extent 8 (b :: pre) := by
          rw [extent_cons]
          omega
        refine .inr ⟨b :: pre, c, post, prevAddr, rfl, ?_, ?_, .inr ?_⟩
        · rw [hptr, haddr]
        · rw [hres, haddr]
        · rcases hprev with ⟨rfl, rfl⟩ | ⟨pre', q, rfl, rfl⟩
          · exact ⟨[], b, rfl, rfl⟩
          · refine ⟨b :: pre', q, rfl, ?_⟩
            rw [extent_cons]
            omega

end Rtbus.Pool
