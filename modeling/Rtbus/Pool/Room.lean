import Rtbus.Pool.Integrity

/-!
# When a request is refused

`bmalloc` returns `NULL` for lack of space: no free block holds the rounded size, and behind the
high-water mark a header and the rounded size do not fit. The test for the tail is off by one.
`_top_of_heap` is the last byte of the pool, so what is left when the high-water mark is subtracted
from it is one byte less than the tail has, and a request that would use up the tail to its last
byte is refused.

`bmalloc_null_iff` says when a request fails. `refusal_justified_iff` compares that with lack of
space in every state of every run, against the range that was given to `init_mem_pool`: the two part
at the exact fit and nowhere else.
-/

namespace Rtbus.Pool

open Rtbus.Tiling

/-- A free block has a payload of at least `n` bytes. -/
def HoleFits (bs : List Block) (n : Nat) : Prop := ∃ b ∈ bs, b.busy = false ∧ n ≤ b.size

/-- Between the high-water mark and the end of what `init_mem_pool` was given there is room for a
header and `n` bytes. -/
def Session.TailFits (s : Session) (index n : Nat) : Prop :=
  s.heap.highWater index + (headerSize + n) ≤ (s.area index).1 + (s.area index).2

/-- A request for `n` bytes fails for lack of space only. -/
def Session.FailsOnlyForSpace (s : Session) (index n : Nat) (bs : List Block) : Prop :=
  ∀ h', bmalloc s.heap index n = some (h', null) →
    ¬ HoleFits bs (roundUp n) ∧ ¬ s.TailFits index (roundUp n)

/-- The rounded size fits no free block, and with its header it is just what the tail has. -/
def Session.ExactTail (s : Session) (index n : Nat) (bs : List Block) : Prop :=
  ¬ HoleFits bs (roundUp n) ∧
    s.heap.highWater index + (headerSize + roundUp n) = (s.area index).1 + (s.area index).2

/-! ## The policy -/

theorem roundUp_of_noWrap {n : Nat} (fits : NoWrap n) : roundUp n = (n + 3) / 4 * 4 := by
  unfold NoWrap at fits
  unfold roundUp wrap maxAlignment
  omega

/-- Nothing is reused exactly if no hole is large enough. -/
theorem reuse_eq_none_iff {n : Nat} {bs : List Block} : reuse n bs = none ↔ ¬ HoleFits bs n := by
  constructor
  · rintro hnone ⟨b, hb, free, fits⟩
    induction bs with
    | nil => cases hb
    | cons c bs ih =>
      rw [reuse] at hnone
      split at hnone
      · cases hnone
      · rename_i hc
        rcases List.mem_cons.mp hb with rfl | hb
        · exact hc ⟨free, fits⟩
        · exact ih (Option.map_eq_none_iff.mp hnone) hb
  · intro hfit
    refine reuse_eq_none fun b hb free => Nat.lt_of_not_le fun fits => ?_
    exact hfit ⟨b, hb, free, fits⟩

/-- A request is refused exactly if it passes the room and no hole is large enough. -/
theorem place_eq_none_iff {room n : Nat} {bs : List Block} :
    place room n bs = none ↔ room < extent 8 bs + (n + 8) ∧ ¬ HoleFits bs n := by
  rw [← reuse_eq_none_iff]
  unfold place
  split
  · rename_i hroom
    simp only [reduceCtorEq, false_iff, not_and]
    exact fun hlt => absurd hroom (Nat.not_le.mpr hlt)
  · rename_i hroom
    simp only [Nat.lt_of_not_le hroom, true_and]

/-- When `bmalloc` returns `NULL`: the last byte of the pool itself is never handed out. -/
theorem bmalloc_null_iff {h : Heap} {index n : Nat} {bs : List Block} (v : Valid h index bs)
    (active : (h.pools index).active = true) (pos : 0 < n) (small : NoCarry n) :
    (∃ h', bmalloc h index n = some (h', null)) ↔
      (h.pools index).topOfHeap < h.highWater index + (headerSize + roundUp n) ∧
        ¬ HoleFits bs (roundUp n) := by
  obtain ⟨h', p, bs', hres, _, hplace⟩ := bmalloc_spec v small
  have hplace := hplace active (Nat.ne_of_gt pos)
  have hle := v.le_top
  have hend := v.highWater_eq
  have hnull : (∃ h', bmalloc h index n = some (h', null)) ↔ p = null := by
    rw [hres]
    constructor
    · rintro ⟨_, heq⟩
      cases heq
      rfl
    · rintro rfl
      exact ⟨h', rfl⟩
  have hnone : p = null ↔
      place ((h.pools index).topOfHeap - (h.pools index).heapOfMemory) (roundUp n) bs = none := by
    rw [roundUp_eq small, hplace]
    split
    · rename_i hp
      simp [hp]
    · rename_i hp
      simp [hp]
  rw [hnull, hnone, place_eq_none_iff]
  refine and_congr_left fun _ => ?_
  unfold headerSize
  omega

/-! ## The end of a pool -/

/-- The last byte of a pool is the last byte of what `init_mem_pool` was given. -/
theorem initMemPool_end {h : Heap} {index heap len : Nat} (hindex : index < poolNumMax)
    (range : heap + len ≤ 2 ^ 32)
    (active : ((initMemPool h index heap len).pools index).active = true) :
    ((initMemPool h index heap len).pools index).topOfHeap + 1 = heap + len := by
  unfold initMemPool at active ⊢
  rw [if_neg (Nat.not_le.mpr hindex)] at active ⊢
  dsimp only at active ⊢
  split at active
  · simp [Heap.setPool] at active
  · rename_i hsmall
    rw [if_neg hsmall]
    split at active
    · simp [Heap.setPool] at active
    · rename_i hroom
      change ¬ (heap = 0 ∨ len ≤ 8) at hsmall
      have hstart : roundUp heap = (heap + 3) / 4 * 4 := by
        unfold roundUp wrap maxAlignment
        omega
      rw [if_neg hroom]
      dsimp only
      rw [Function.update_self]
      simp only [hstart, wrap, sub32, headerSize] at hroom ⊢
      omega

/-- The last byte of each active pool is the last byte of what its caller gave it. -/
def Session.Ends (s : Session) : Prop :=
  ∀ index, (s.heap.pools index).active = true →
    (s.heap.pools index).topOfHeap + 1 = (s.area index).1 + (s.area index).2

theorem Session.Ends.confined {s s' : Session} (e : s.Ends) {i : Nat}
    (c : Confined s.heap s'.heap i) (area : s'.area = s.area) : s'.Ends := by
  intro j active
  obtain ⟨last, hpools⟩ := c.pools
  obtain ⟨_, htop, hactive⟩ := c.fields
  rw [area]
  by_cases hj : j = i
  · subst hj
    rw [htop]
    exact e j (hactive ▸ active)
  · rw [hpools, Function.update_of_ne hj] at active ⊢
    exact e j active

/-- One call keeps the ends of the pools. -/
theorem Session.Ends.call {s s' : Session} (e : s.Ends) (g : s.Good) {c : Call}
    (allowed : s.Allowed NoCarry c) (hcall : s.call c = some s') : s'.Ends := by
  cases c with
  | init i addr len =>
    obtain ⟨range, _⟩ := allowed
    simp only [Session.call] at hcall
    split at hcall
    · cases hcall
      exact e
    · rename_i hi
      cases hcall
      have hi' : i < poolNumMax := Nat.lt_of_not_le hi
      intro j active
      by_cases hj : j = i
      · subst hj
        dsimp only at active ⊢
        rw [Function.update_self]
        exact initMemPool_end hi' range active
      · obtain ⟨_, _, hother, _⟩ := initMemPool_spec (h := s.heap) hi' range
        dsimp only at active ⊢
        rw [hother j hj] at active ⊢
        rw [Function.update_of_ne hj]
        exact e j active
  | alloc i n =>
    obtain ⟨bs, v, _⟩ := g.pool i
    obtain ⟨h', p, _, hres, ⟨_, conf, _⟩, _⟩ := bmalloc_spec v allowed
    simp only [Session.call, hres] at hcall
    split at hcall
    · cases hcall
      exact e.confined conf rfl
    · cases hcall
      exact e.confined conf rfl
  | free i p =>
    obtain ⟨bs, v, _⟩ := g.pool i
    obtain ⟨h', _, hres, _, conf, _⟩ := bfree_spec v p
    simp only [Session.call, hres] at hcall
    cases hcall
    exact e.confined conf rfl
  | store addr bytes =>
    cases hcall
    exact e

theorem Session.Start.ends {s : Session} (start : s.Start) : s.Ends := by
  intro index active
  rw [start.1 index] at active
  cases active

/-- In every state of every run the pools end where their callers said. -/
theorem Session.reachable_ends {s : Session} (h : s.Reachable NoCarry) : s.Ends := by
  refine (Run.Reachable.invariant (I := fun s => s.Good ∧ s.Ends)
    (fun _ start => ⟨start.good, start.ends⟩) (fun s c s' ⟨g, e⟩ step => ?_) h).2
  obtain ⟨allowed, hcall⟩ := step
  obtain ⟨s₂, hs₂, good, _⟩ := g.call allowed
  cases hcall.symm.trans hs₂
  exact ⟨good, e.call g allowed hcall⟩

/-! ## Refusals -/

/-- A request that carries when its header is added is larger than any block and any tail. -/
theorem too_large {h : Heap} {index n : Nat} {bs : List Block} (v : Valid h index bs)
    (fits : NoWrap n) (carry : ¬ NoCarry n) :
    2 ^ 32 ≤ headerSize + roundUp n ∧ ¬ HoleFits bs (roundUp n) := by
  have hend := v.highWater_eq
  have hlt := v.highWater_lt
  have hbig : 2 ^ 32 ≤ headerSize + roundUp n := by
    rw [roundUp_of_noWrap fits]
    unfold NoCarry at carry
    unfold headerSize
    omega
  refine ⟨hbig, ?_⟩
  rintro ⟨b, hb, _, hle⟩
  obtain ⟨pre, post, rfl⟩ := List.append_of_mem hb
  rw [extent_append, extent_cons] at hend
  unfold headerSize at hbig
  omega

/-- In every state of every run whose requests leave room for a header in 32 bits, a request that
does not wrap when it is rounded up fails for lack of space only, unless it would fill the pool to
its last byte. -/
theorem refusal_justified_iff (s : Session) (h : s.Reachable NoCarry) (index n : Nat)
    (active : (s.heap.pools index).active = true) (pos : 0 < n) (fits : NoWrap n) :
    ∃ bs, Integrity s index bs ∧ (s.FailsOnlyForSpace index n bs ↔ ¬ s.ExactTail index n bs) := by
  have g := Session.reachable_good h
  obtain ⟨bs, v, holds⟩ := g.pool index
  have hend := Session.reachable_ends h index active
  have hbase := v.base_pos active
  have hle := v.le_top
  have hmark := v.highWater_eq
  have hlt := v.top_lt
  refine ⟨bs, g.integrity v holds, ?_⟩
  unfold Session.FailsOnlyForSpace Session.ExactTail Session.TailFits
  by_cases small : NoCarry n
  · have hnull := bmalloc_null_iff v active pos small
    constructor
    · rintro only ⟨noHole, full⟩
      obtain ⟨h', hres⟩ := hnull.mpr ⟨by omega, noHole⟩
      exact (only h' hres).2 (Nat.le_of_eq full)
    · intro notExact h' hres
      obtain ⟨hroom, noHole⟩ := hnull.mp ⟨h', hres⟩
      refine ⟨noHole, fun tail => notExact ⟨noHole, ?_⟩⟩
      omega
  · obtain ⟨hbig, noHole⟩ := too_large v fits small
    constructor
    · rintro _ ⟨_, full⟩
      omega
    · refine fun _ _ _ => ⟨noHole, fun tail => ?_⟩
      omega

/-- The pool of 64 bytes after an allocation of five bytes, which with their header take 16. -/
def Session.oneBlock : Session :=
  { Session.sixtyFour with
    heap := ((bmalloc Session.sixtyFour.heap 0 5).getD (Session.sixtyFour.heap, null)).1
    live := Function.update Session.sixtyFour.live 0 [(0x20001008, 5)] }

theorem Session.oneBlock_reachable : Session.oneBlock.Reachable NoCarry := by
  have granted : (bmalloc Session.sixtyFour.heap 0 5).map Prod.snd = some 0x20001008 := by
    decide +kernel
  obtain ⟨⟨h', p⟩, hres, hp⟩ := Option.map_eq_some_iff.mp granted
  obtain rfl : p = 0x20001008 := hp
  refine (Session.sixtyFour_reachable NoCarry).step (a := .alloc 0 5)
    ⟨show NoCarry 5 by unfold NoCarry; decide, ?_⟩
  simp only [Session.call, hres, Session.oneBlock, Option.getD_some]
  rfl

/-- With 48 bytes left the pool refuses a request for 44, and neither a free block nor the tail has
room for it. -/
theorem refusal_justified_of_oneBlock :
    ∃ h' bs, bmalloc Session.oneBlock.heap 0 44 = some (h', null) ∧
      Integrity Session.oneBlock 0 bs ∧
      ¬ HoleFits bs (roundUp 44) ∧ ¬ Session.oneBlock.TailFits 0 (roundUp 44) := by
  obtain ⟨bs, ok, only⟩ := refusal_justified_iff Session.oneBlock Session.oneBlock_reachable 0 44
    (by decide +kernel) (by decide) (by unfold NoWrap; decide)
  have full : Session.oneBlock.heap.highWater 0 + (headerSize + roundUp 44) ≠
      (Session.oneBlock.area 0).1 + (Session.oneBlock.area 0).2 := by
    decide +kernel
  have refused : (bmalloc Session.oneBlock.heap 0 44).map Prod.snd = some null := by
    decide +kernel
  obtain ⟨⟨h', p⟩, hres, hp⟩ := Option.map_eq_some_iff.mp refused
  obtain rfl : p = null := hp
  exact ⟨h', bs, hres, ok, only.mpr (fun tail => full tail.2) h' hres⟩

/-- An empty pool of 64 bytes refuses a request for 56, which with its header are 64. -/
theorem exact_fit_refused :
    ¬ ∀ s : Session, s.Reachable NoWrap → ∀ index n, (s.heap.pools index).active = true → 0 < n →
      NoWrap n → ∃ bs, Integrity s index bs ∧ s.FailsOnlyForSpace index n bs := by
  intro always
  obtain ⟨bs, _, only⟩ := always Session.sixtyFour (Session.sixtyFour_reachable NoWrap) 0 56 rfl
    (by decide) (by unfold NoWrap; decide)
  have valid : Valid Session.sixtyFour.heap 0 [] :=
    (@initMemPool_spec { mem := fun _ => 0, pools := fun _ => PoolVars.zero } 0 0x20001000 64
      (by decide) (by decide)).1
  have noHole : ¬ HoleFits [] (roundUp 56) := by simp [HoleFits]
  obtain ⟨h', refused⟩ := (bmalloc_null_iff valid rfl (by decide) (by decide)).mpr
    ⟨by decide, noHole⟩
  refine (only h' refused).2 ?_
  show 0x20001000 + (8 + 56) ≤ 0x20001000 + 64
  exact Nat.le_refl _

end Rtbus.Pool
