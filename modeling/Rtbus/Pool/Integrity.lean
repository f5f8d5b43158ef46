import Rtbus.Base.Run
import Rtbus.Pool.Spec

/-!
# Integrity of the pools over whole runs

A session is the heap together with what its callers know: the range they gave to `init_mem_pool`
for each pool, and the pointers they got from `bmalloc` and have not freed, with the sizes they
asked for. A run starts with zeroed statics and any memory. Callers set up pools in ranges that no
other pool owns, allocate, free any pointer at all (live, `NULL`, freed before, or never returned),
and store into live payloads.

`Integrity` is what holds of each pool in every state of such a run, provided that every requested
size has room for its header in 32 bits. Without that proviso one call is enough to break it:
`bmalloc` of `2 ^ 32 - 8` bytes succeeds and hands out a range that is not in the pool.
-/

namespace Rtbus.Pool

open Rtbus.Tiling

/-- A heap and what its callers know about it. -/
structure Session where
  heap : Heap
  live : Nat → List (Nat × Nat)
  area : Nat → Nat × Nat

/-- What a caller does. -/
inductive Call where
  | init (index addr len : Nat)
  | alloc (index n : Nat)
  | free (index p : Nat)
  | store (addr : Nat) (bytes : List UInt8)

/-- A call on the allocator, rather than a store of the caller's own. -/
def Call.onAllocator : Call → Bool
  | .store .. => false
  | _ => true

/-- One call. `init_mem_pool` with an index out of range does nothing. -/
def Session.call (s : Session) : Call → Option Session
  | .init index addr len =>
    if index ≥ poolNumMax then some s
    else some {
      heap := initMemPool s.heap index addr len
      live := Function.update s.live index []
      area := Function.update s.area index (addr, len) }
  | .alloc index n =>
    match bmalloc s.heap index n with
    | none => none
    | some (h, p) =>
      if p = null then some { s with heap := h }
      else some { s with
        heap := h, live := Function.update s.live index ((p, n) :: s.live index) }
  | .free index p =>
    match bfree s.heap index p with
    | none => none
    | some h => some { s with
        heap := h, live := Function.update s.live index ((s.live index).filter (·.1 ≠ p)) }
  | .store addr bytes => some { s with heap := { s.heap with mem := s.heap.mem.copy addr bytes } }

/-- Zeroed statics, and any memory. -/
def Session.Start (s : Session) : Prop :=
  (∀ index, s.heap.pools index = PoolVars.zero) ∧ ∀ index, s.live index = []

/-- What callers keep to: a pool lies in the address space and in no other pool's area, requested
sizes satisfy `fits`, and stores stay inside what was asked for. -/
def Session.Allowed (fits : Nat → Prop) (s : Session) : Call → Prop
  | .init index addr len =>
    addr + len ≤ 2 ^ 32 ∧
      ∀ j, j ≠ index → ∀ x, (s.heap.pools j).Owns x → x < addr ∨ addr + len ≤ x
  | .alloc _ n => fits n
  | .free _ _ => True
  | .store addr bytes =>
    ∃ index, ∃ p ∈ s.live index, p.1 ≤ addr ∧ addr + bytes.length ≤ p.1 + p.2

/-- A call that callers may make, and its outcome. -/
def Session.Step (fits : Nat → Prop) (s : Session) (c : Call) (s' : Session) : Prop :=
  s.Allowed fits c ∧ s.call c = some s'

/-- The states of all runs whose requested sizes satisfy `fits`. -/
abbrev Session.Reachable (fits : Nat → Prop) : Session → Prop :=
  Run.Reachable Session.Start (Session.Step fits)

/-- A size that does not wrap when it is rounded up. -/
def NoWrap (n : Nat) : Prop := n + 3 < 2 ^ 32

/-- Pool `index` is in order, with the blocks `bs`. -/
structure Integrity (s : Session) (index : Nat) (bs : List Block) : Prop where
  /-- Following `next` from the base visits blocks that tile the range up to the high-water mark. -/
  tiles : Tiles s.heap.mem (s.heap.pools index).heapOfMemory bs (s.heap.highWater index)
  /-- The high-water mark does not pass the end of the pool. -/
  le_end : s.heap.highWater index ≤ (s.area index).1 + (s.area index).2
  /-- Live pointers are aligned, and are payloads of at least the requested size. -/
  live : ∀ p ∈ s.live index, p.1 % 4 = 0 ∧ ∃ size, p.2 ≤ size ∧ (p.1, size) ∈ s.heap.live index bs
  /-- Every payload is live. -/
  payload : ∀ p ∈ s.heap.live index bs, ∃ n, (p.1, n) ∈ s.live index
  /-- No pointer is handed out twice. -/
  distinct : ((s.live index).map Prod.fst).Nodup
  /-- Payloads are disjoint. -/
  disjoint : (s.heap.live index bs).Pairwise fun p q => p.1 + p.2 ≤ q.1
  /-- Payloads are disjoint from all headers. -/
  headers : ∀ pre b post, bs = pre ++ b :: post → ∀ p ∈ s.heap.live index bs,
    p.1 + p.2 ≤ (s.heap.pools index).heapOfMemory + extent 8 pre ∨
      (s.heap.pools index).heapOfMemory + extent 8 pre + 8 ≤ p.1
  /-- No two neighbours are both free and the last block is busy. -/
  coalesced : Coalesced bs
  /-- With nothing live the high-water mark is back at the base. -/
  empty : s.live index = [] → s.heap.highWater index = (s.heap.pools index).heapOfMemory

/-! ## The invariant -/

/-- The pointers that callers hold are the payloads of the pool. -/
structure Holds (live ps : List (Nat × Nat)) : Prop where
  sized : ∀ p ∈ live, ∃ size, p.2 ≤ size ∧ (p.1, size) ∈ ps
  payload : ∀ p ∈ ps, ∃ n, (p.1, n) ∈ live
  distinct : (live.map Prod.fst).Nodup

/-- What every call keeps. -/
structure Session.Good (s : Session) : Prop where
  pool : ∀ index, ∃ bs, Valid s.heap index bs ∧ Holds (s.live index) (s.heap.live index bs)
  apart : ∀ i j, i ≠ j → ∀ x, (s.heap.pools i).Owns x → ¬ (s.heap.pools j).Owns x
  inside : ∀ index x, (s.heap.pools index).Owns x →
    (s.area index).1 ≤ x ∧ x < (s.area index).1 + (s.area index).2

theorem holds_nil : Holds [] [] := ⟨by simp, by simp, by simp⟩

theorem Holds.alloc {live l₁ l₂ : List (Nat × Nat)} {p n size : Nat} (h : Holds live (l₁ ++ l₂))
    (hsize : n ≤ size) (nodup : ((l₁ ++ (p, size) :: l₂).map Prod.fst).Nodup) :
    Holds ((p, n) :: live) (l₁ ++ (p, size) :: l₂) := by
  refine ⟨?_, ?_, ?_⟩
  · intro q hq
    rcases List.mem_cons.mp hq with rfl | hq
    · exact ⟨size, hsize, by simp⟩
    · obtain ⟨t, ht, hmem⟩ := h.sized q hq
      refine ⟨t, ht, ?_⟩
      rcases List.mem_append.mp hmem with hmem | hmem
      · simp [hmem]
      · simp [hmem]
  · intro q hq
    rcases List.mem_append.mp hq with hq | hq
    · obtain ⟨m, hm⟩ := h.payload q (List.mem_append_left _ hq)
      exact ⟨m, List.mem_cons_of_mem _ hm⟩
    · rcases List.mem_cons.mp hq with rfl | hq
      · exact ⟨n, List.mem_cons_self ..⟩
      · obtain ⟨m, hm⟩ := h.payload q (List.mem_append_right _ hq)
        exact ⟨m, List.mem_cons_of_mem _ hm⟩
  · refine List.nodup_cons.mpr ⟨fun hp => ?_, h.distinct⟩
    obtain ⟨q, hq, rfl⟩ := List.mem_map.mp hp
    obtain ⟨t, _, hmem⟩ := h.sized q hq
    have hperm : ((q.1, size) :: (l₁ ++ l₂)).map Prod.fst |>.Nodup :=
      (List.perm_middle.map Prod.fst).nodup_iff.mp nodup
    exact (List.nodup_cons.mp hperm).1 (List.mem_map.mpr ⟨_, hmem, rfl⟩)

theorem Holds.free {live l₁ l₂ : List (Nat × Nat)} {p size : Nat}
    (h : Holds live (l₁ ++ (p, size) :: l₂))
    (nodup : ((l₁ ++ (p, size) :: l₂).map Prod.fst).Nodup) :
    Holds (live.filter (·.1 ≠ p)) (l₁ ++ l₂) := by
  have hperm : ((p, size) :: (l₁ ++ l₂)).map Prod.fst |>.Nodup :=
    (List.perm_middle.map Prod.fst).nodup_iff.mp nodup
  have hmem : ∀ q : Nat × Nat, q ∈ l₁ ++ (p, size) :: l₂ ↔ q = (p, size) ∨ q ∈ l₁ ++ l₂ := by
    intro q
    rw [← List.mem_cons]
    exact List.perm_middle.mem_iff
  refine ⟨?_, ?_, h.distinct.sublist (List.filter_sublist.map Prod.fst)⟩
  · intro q hq
    obtain ⟨hq, hne⟩ := List.mem_filter.mp hq
    obtain ⟨t, ht, hin⟩ := h.sized q hq
    rcases (hmem _).mp hin with heq | hin
    · cases heq
      simp at hne
    · exact ⟨t, ht, hin⟩
  · intro q hq
    obtain ⟨m, hm⟩ := h.payload q ((hmem q).mpr (.inr hq))
    refine ⟨m, List.mem_filter.mpr ⟨hm, ?_⟩⟩
    have hne : q.1 ≠ p := fun heq =>
      (List.nodup_cons.mp hperm).1 (heq ▸ List.mem_map.mpr ⟨_, hq, rfl⟩)
    simpa using hne

/-- Freeing a pointer that is no payload. -/
theorem Holds.free_other {live ps : List (Nat × Nat)} {p : Nat} (h : Holds live ps)
    (other : ∀ q ∈ ps, q.1 ≠ p) : Holds (live.filter (·.1 ≠ p)) ps := by
  refine ⟨fun q hq => h.sized q (List.mem_of_mem_filter hq), fun q hq => ?_,
    h.distinct.sublist (List.filter_sublist.map Prod.fst)⟩
  obtain ⟨m, hm⟩ := h.payload q hq
  exact ⟨m, List.mem_filter.mpr ⟨hm, by simpa using other q hq⟩⟩

namespace Session.Good

variable {s : Session}

/-- What the invariant says in the terms of the callers. -/
theorem integrity (g : s.Good) {index : Nat} {bs : List Block} (v : Valid s.heap index bs)
    (holds : Holds (s.live index) (s.heap.live index bs)) : Integrity s index bs := by
  refine ⟨v.tiles, ?_, ?_, holds.payload, holds.distinct, ?_, ?_, v.coalesced, ?_⟩
  · have hle := v.le_top
    cases hactive : (s.heap.pools index).active with
    | false =>
      have hhigh := v.highWater_eq
      rw [v.empty hactive, extent_nil, v.idle hactive] at hhigh
      omega
    | true =>
      have hend := v.highWater_eq
      have := (g.inside index (s.heap.pools index).topOfHeap ⟨hactive, by omega, Nat.le_refl _⟩).2
      omega
  · intro p hp
    obtain ⟨size, hsize, hmem⟩ := holds.sized p hp
    exact ⟨v.live_aligned (p := (p.1, size)) hmem, size, hsize, hmem⟩
  · exact (payloads_pairwise _ bs).imp fun h => by omega
  · rintro pre b post rfl p hp
    unfold Heap.live at hp
    rw [payloads_append] at hp
    rcases List.mem_append.mp hp with hp | hp
    · exact .inl (payloads_range hp).2
    · exact .inr (payloads_range hp).1
  · intro hempty
    refine v.highWater_eq_base (List.eq_nil_iff_forall_not_mem.mpr fun p hp => ?_)
    obtain ⟨n, hn⟩ := holds.payload p hp
    rw [hempty] at hn
    cases hn

/-- A change confined to one pool keeps the others. -/
theorem confined (g : s.Good) {h' : Heap} {index : Nat} (c : Confined s.heap h' index)
    {live' : List (Nat × Nat)} {bs' : List Block} (v' : Valid h' index bs')
    (holds : Holds live' (h'.live index bs')) :
    ({ s with heap := h', live := Function.update s.live index live' } : Session).Good := by
  obtain ⟨last, hpools⟩ := c.pools
  have howns : ∀ j x, (h'.pools j).Owns x ↔ (s.heap.pools j).Owns x := by
    intro j x
    by_cases hj : j = index
    · subst hj
      exact c.owns_iff
    · rw [hpools, Function.update_of_ne hj]
  refine ⟨fun j => ?_, ?_, ?_⟩
  · by_cases hj : j = index
    · subst hj
      refine ⟨bs', v', ?_⟩
      show Holds (Function.update s.live j live' j) _
      rw [Function.update_self]
      exact holds
    · obtain ⟨bs, v, hbs⟩ := g.pool j
      have hsame : h'.pools j = s.heap.pools j := by rw [hpools, Function.update_of_ne hj]
      refine ⟨bs, v.frame hsame fun x hx => c.mem x (g.apart j index hj x hx), ?_⟩
      show Holds (Function.update s.live index live' j) (h'.live j bs)
      rw [Function.update_of_ne hj]
      unfold Heap.live
      rw [hsame]
      exact hbs
  · intro i j hij x hi hj
    exact g.apart i j hij x ((howns i x).mp hi) ((howns j x).mp hj)
  · intro j x hx
    exact g.inside j x ((howns j x).mp hx)

/-- Setting up a pool in a range that no other pool owns. -/
theorem init (g : s.Good) {index addr len : Nat} (hindex : index < poolNumMax)
    (range : addr + len ≤ 2 ^ 32)
    (free : ∀ j, j ≠ index → ∀ x, (s.heap.pools j).Owns x → x < addr ∨ addr + len ≤ x) :
    ({ heap := initMemPool s.heap index addr len
       live := Function.update s.live index []
       area := Function.update s.area index (addr, len) } : Session).Good := by
  obtain ⟨v', hin, hother, hmem, _⟩ := initMemPool_spec (h := s.heap) hindex range
  refine ⟨fun j => ?_, ?_, ?_⟩
  · by_cases hj : j = index
    · subst hj
      refine ⟨[], v', ?_⟩
      show Holds (Function.update s.live j [] j) []
      rw [Function.update_self]
      exact holds_nil
    · obtain ⟨bs, v, hbs⟩ := g.pool j
      refine ⟨bs, v.frame (hother j hj) fun x hx => hmem x (free j hj x hx), ?_⟩
      show Holds (Function.update s.live index [] j) (Heap.live _ j bs)
      rw [Function.update_of_ne hj]
      unfold Heap.live
      rw [hother j hj]
      exact hbs
  · have key : ∀ j, j ≠ index → ∀ x, ((initMemPool s.heap index addr len).pools index).Owns x →
        ¬ ((initMemPool s.heap index addr len).pools j).Owns x := by
      intro j hj x hx hx'
      rw [hother j hj] at hx'
      have h1 := free j hj x hx'
      have h2 := hin x hx
      omega
    intro i j hij x hi hj
    by_cases hi' : i = index
    · subst hi'
      exact key j hij.symm x hi hj
    · by_cases hj' : j = index
      · subst hj'
        exact key i hij x hj hi
      · change ((initMemPool s.heap index addr len).pools i).Owns x at hi
        change ((initMemPool s.heap index addr len).pools j).Owns x at hj
        rw [hother i hi'] at hi
        rw [hother j hj'] at hj
        exact g.apart i j hij x hi hj
  · intro j x hx
    by_cases hj : j = index
    · subst hj
      dsimp only
      rw [Function.update_self]
      exact hin x hx
    · dsimp only
      rw [Function.update_of_ne hj]
      change ((initMemPool s.heap index addr len).pools j).Owns x at hx
      rw [hother j hj] at hx
      exact g.inside j x hx

/-- A store inside what a caller asked for. -/
theorem store (g : s.Good) {index addr : Nat} {bytes : List UInt8} {p : Nat × Nat}
    (hp : p ∈ s.live index) (lo : p.1 ≤ addr) (hi : addr + bytes.length ≤ p.1 + p.2) :
    ({ s with heap := { s.heap with mem := s.heap.mem.copy addr bytes } } : Session).Good := by
  have agree := Memory.copy_agreeOff s.heap.mem addr bytes
  obtain ⟨bs, v, hbs⟩ := g.pool index
  obtain ⟨size, hsize, hmem⟩ := hbs.sized p hp
  refine ⟨fun j => ?_, g.apart, g.inside⟩
  by_cases hj : j = index
  · subst hj
    exact ⟨bs, v.store hmem (agree.widen lo (by show _ ≤ p.1 + size; omega)), hbs⟩
  · obtain ⟨bs', v', hbs'⟩ := g.pool j
    refine ⟨bs', v'.frame rfl fun x hx => agree x ?_, hbs'⟩
    refine Classical.byContradiction fun hin => g.apart j index hj x hx ?_
    exact v.owns_live hmem (by show p.1 ≤ x; omega) (by show x < p.1 + size; omega)

end Session.Good

/-! ## Runs -/

/-- The payloads of a pool that a call leaves live keep their bytes. -/
def KeepsPayloads (s s' : Session) (index : Nat) (bs : List Block) : Prop :=
  ∀ p ∈ s.heap.live index bs, p.1 ∈ (s'.live index).map Prod.fst →
    ∀ x, p.1 ≤ x → x < p.1 + p.2 → s'.heap.mem x = s.heap.mem x

/-- A change confined to one pool keeps the payloads of all others. -/
theorem Session.Good.keeps_of_confined {s s' : Session} (g : s.Good) {i index : Nat}
    (c : Confined s.heap s'.heap i) (hne : index ≠ i) {bs : List Block}
    (v : Valid s.heap index bs) : KeepsPayloads s s' index bs :=
  fun _ hp _ x lo hi => c.mem x (g.apart index i hne x (v.owns_live hp lo hi))

/-- `bmalloc` returns, keeps the session in order and keeps all live payloads. -/
theorem Session.Good.alloc {s : Session} (g : s.Good) (i : Nat) {n : Nat} (small : NoCarry n) :
    ∃ s', s.call (.alloc i n) = some s' ∧ s'.Good ∧ ∀ index bs,
      Valid s.heap index bs → KeepsPayloads s s' index bs := by
  obtain ⟨bs, v, holds⟩ := g.pool i
  obtain ⟨h', p, bs', hres, ⟨v', conf, hcase⟩, _⟩ := bmalloc_spec v small
  have kept : ∀ bs, Valid s.heap i bs → Kept s.heap.mem h'.mem (s.heap.live i bs) := by
    intro bs v
    obtain ⟨h₂, p₂, bs₂, hres₂, ⟨_, _, hcase₂⟩, _⟩ := bmalloc_spec v small
    obtain ⟨rfl, rfl⟩ := Prod.mk.inj (Option.some.inj (hres.symm.trans hres₂))
    rcases hcase₂ with ⟨_, _, hmem⟩ | ⟨_, l₁, l₂, size, _, hlive, _, hkept⟩
    · rw [hmem]
      exact fun _ _ _ _ _ => rfl
    · rw [hlive]
      exact hkept
  have keeps : ∀ live', ∀ index bs, Valid s.heap index bs →
      KeepsPayloads s { s with heap := h', live := live' } index bs := by
    intro live' index cs w
    by_cases hne : index = i
    · subst hne
      exact fun p hp _ => kept cs w p hp
    · exact g.keeps_of_confined conf hne w
  simp only [Session.call, hres]
  rcases hcase with ⟨rfl, rfl, _⟩ | ⟨hp, l₁, l₂, size, hsize, hlive, hlive', _⟩
  · refine ⟨_, if_pos rfl, ?_, keeps s.live⟩
    have hsame : h'.live i bs' = s.heap.live i bs' := by
      unfold Heap.live
      rw [conf.fields.1]
    rw [← hsame] at holds
    have := g.confined conf v' holds
    rwa [Function.update_eq_self] at this
  · refine ⟨_, if_neg hp, g.confined conf v' ?_, keeps _⟩
    rw [hlive']
    rw [hlive] at holds
    exact holds.alloc hsize (hlive' ▸ payloads_nodup _ bs')

/-- `bfree` of any pointer returns, keeps the session in order and keeps what stays live. -/
theorem Session.Good.free {s : Session} (g : s.Good) (i p : Nat) :
    ∃ s', s.call (.free i p) = some s' ∧ s'.Good ∧ ∀ index bs,
      Valid s.heap index bs → KeepsPayloads s s' index bs := by
  obtain ⟨bs, v, holds⟩ := g.pool i
  obtain ⟨h', bs', hres, v', conf, hcase⟩ := bfree_spec v p
  have keeps : ∀ index bs, Valid s.heap index bs → KeepsPayloads s
      { s with heap := h',
               live := Function.update s.live i ((s.live i).filter (·.1 ≠ p)) } index bs := by
    intro index cs w
    by_cases hne : index = i
    · subst hne
      obtain ⟨h₂, bs₂, hres₂, _, _, hcase₂⟩ := bfree_spec w p
      obtain rfl := Option.some.inj (hres.symm.trans hres₂)
      rcases hcase₂ with ⟨rfl, _⟩ | ⟨l₁, size, l₂, hlive, _, hkept⟩
      · exact fun _ _ _ _ _ _ => rfl
      · intro q hq hlive' x lo hi
        dsimp only at hlive'
        rw [Function.update_self] at hlive'
        obtain ⟨r, hr, hrq⟩ := List.mem_map.mp hlive'
        have hne : q.1 ≠ p := by
          rw [← hrq]
          simpa using (List.mem_filter.mp hr).2
        rw [hlive] at hq
        refine hkept q ?_ x lo hi
        rcases List.mem_cons.mp (List.perm_middle.mem_iff.mp hq) with rfl | hq
        · exact absurd rfl hne
        · exact hq
    · exact g.keeps_of_confined conf hne w
  simp only [Session.call, hres]
  refine ⟨_, rfl, g.confined conf v' ?_, keeps⟩
  rcases hcase with ⟨rfl, rfl, hother⟩ | ⟨l₁, size, l₂, hlive, hlive', _⟩
  · exact holds.free_other hother
  · rw [hlive']
    have nodup := payloads_nodup (s.heap.pools i).heapOfMemory bs
    change ((s.heap.live i bs).map Prod.fst).Nodup at nodup
    rw [hlive] at holds nodup
    exact holds.free nodup

/-- One call from a good session returns, leads to a good session, and keeps what stays live. -/
theorem Session.Good.call {s : Session} (g : s.Good) {c : Call} (allowed : s.Allowed NoCarry c) :
    ∃ s', s.call c = some s' ∧ s'.Good ∧ (c.onAllocator = true → ∀ index bs,
      Valid s.heap index bs → KeepsPayloads s s' index bs) := by
  cases c with
  | init i addr len =>
    obtain ⟨range, free⟩ := allowed
    by_cases hi : i ≥ poolNumMax
    · exact ⟨s, if_pos hi, g, fun _ _ _ _ _ _ _ _ _ _ => rfl⟩
    · have hi' : i < poolNumMax := Nat.lt_of_not_le hi
      refine ⟨_, if_neg hi, g.init hi' range free, fun _ index bs v p hp hlive x lo hx => ?_⟩
      by_cases hne : index = i
      · subst hne
        dsimp only at hlive
        rw [Function.update_self] at hlive
        cases hlive
      · obtain ⟨_, _, _, hmem, _⟩ := initMemPool_spec (h := s.heap) hi' range
        exact hmem x (free index hne x (v.owns_live hp lo hx))
  | alloc i n =>
    obtain ⟨s', hs', good, keeps⟩ := g.alloc i allowed
    exact ⟨s', hs', good, fun _ => keeps⟩
  | free i p =>
    obtain ⟨s', hs', good, keeps⟩ := g.free i p
    exact ⟨s', hs', good, fun _ => keeps⟩
  | store addr bytes =>
    obtain ⟨index, p, hp, lo, hi⟩ := allowed
    exact ⟨_, rfl, g.store hp lo hi, fun h => absurd h (by simp [Call.onAllocator])⟩

theorem Session.Start.good {s : Session} (start : s.Start) : s.Good := by
  obtain ⟨hpools, hlive⟩ := start
  have howns : ∀ index x, ¬ (s.heap.pools index).Owns x := by
    intro index x h
    have := h.1
    rw [hpools] at this
    cases this
  refine ⟨fun index => ⟨[], ?_, ?_⟩, fun i _ _ x hx => absurd hx (howns i x),
    fun index x hx => absurd hx (howns index x)⟩
  · exact (valid_fresh (hpools index) (fun h' => absurd h' (by decide)) (fun _ => rfl) rfl
      (fun h' => absurd h' (by decide)) rfl (Nat.le_refl 0) (Nat.two_pow_pos 32)).1
  · rw [hlive]
    exact holds_nil

/-- Every state of every run is good. -/
theorem Session.reachable_good {s : Session} (h : s.Reachable NoCarry) : s.Good := by
  refine Run.Reachable.invariant (fun _ start => start.good) (fun s c s' g step => ?_) h
  obtain ⟨allowed, hcall⟩ := step
  obtain ⟨s₂, hs₂, good, _⟩ := g.call allowed
  cases hcall.symm.trans hs₂
  exact good

/-- In every run in which every requested size leaves room for a header in 32 bits, both pools are
in order at every state, every further call returns, and no call on the allocator changes the bytes
of a payload that it leaves live. -/
theorem integrity_of_noCarry (s : Session) (h : s.Reachable NoCarry) :
    ∀ index, ∃ bs, Integrity s index bs ∧
      ∀ c, s.Allowed NoCarry c → ∃ s', s.call c = some s' ∧
        (c.onAllocator = true → KeepsPayloads s s' index bs) := by
  intro index
  have g := Session.reachable_good h
  obtain ⟨bs, v, holds⟩ := g.pool index
  refine ⟨bs, g.integrity v holds, fun c allowed => ?_⟩
  obtain ⟨s', hs', _, keeps⟩ := g.call allowed
  exact ⟨s', hs', fun hc => keeps hc index bs v⟩

/-- Zeroed statics and memory, after `init_mem_pool` of pool 0 with 64 bytes. -/
def Session.sixtyFour : Session :=
  { heap := initMemPool { mem := fun _ => 0, pools := fun _ => PoolVars.zero } 0 0x20001000 64
    live := Function.update (fun _ => []) 0 []
    area := Function.update (fun _ => (0, 0)) 0 (0x20001000, 64) }

theorem Session.sixtyFour_reachable (fits : Nat → Prop) : Session.sixtyFour.Reachable fits := by
  refine .step (a := .init 0 0x20001000 64) (.start (s := {
    heap := { mem := fun _ => 0, pools := fun _ => PoolVars.zero }
    live := fun _ => []
    area := fun _ => (0, 0) }) ⟨fun _ => rfl, fun _ => rfl⟩) ⟨⟨by decide, ?_⟩, rfl⟩
  rintro j _ x ⟨h, _⟩
  cases h

/-- An allocation that hands out `p` and leaves the variables `v`. -/
theorem Session.Reachable.alloc {fits : Nat → Prop} {s : Session} (h : s.Reachable fits)
    {i n p : Nat} {v : PoolVars} (ok : fits n)
    (hres : (bmalloc s.heap i n).map (fun r => (r.2, r.1.pools i)) = some (p, v)) (hp : p ≠ null) :
    ∃ s' : Session, s'.Reachable fits ∧ s'.heap.pools i = v ∧
      s'.live i = (p, n) :: s.live i := by
  cases hb : bmalloc s.heap i n with
  | none =>
    rw [hb] at hres
    cases hres
  | some r =>
    obtain ⟨h', q⟩ := r
    rw [hb] at hres
    obtain ⟨rfl, rfl⟩ := Prod.mk.inj (Option.some.inj hres)
    refine ⟨{ s with heap := h', live := Function.update s.live i ((q, n) :: s.live i) },
      h.step (a := .alloc i n) ⟨ok, ?_⟩, rfl, Function.update_self ..⟩
    simp only [Session.call, hb, if_neg hp]

/-- The pools in order after an allocation of five bytes. -/
theorem integrity_after_allocation :
    ∃ s : Session, s.live 0 = [(0x20001008, 5)] ∧
      ∀ index, ∃ bs, Integrity s index bs ∧
        ∀ c, s.Allowed NoCarry c → ∃ s', s.call c = some s' ∧
          (c.onAllocator = true → KeepsPayloads s s' index bs) := by
  obtain ⟨s, hs, _, hlive⟩ := (Session.sixtyFour_reachable NoCarry).alloc (i := 0) (n := 5)
    (by decide) rfl (by decide)
  exact ⟨s, hlive, integrity_of_noCarry s hs⟩

/-- Without room for the header in 32 bits the pool does not stay in order: a request for
`2 ^ 32 - 8` bytes, which does not wrap when it is rounded up, is granted. -/
theorem integrity_fails_on_carry :
    ¬ ∀ s : Session, s.Reachable NoWrap → ∀ index, ∃ bs, Integrity s index bs := by
  intro always
  obtain ⟨s, hs, hvars, hlive⟩ := (Session.sixtyFour_reachable NoWrap).alloc (i := 0)
    (n := 2 ^ 32 - 8) (by unfold NoWrap; decide) rfl (by decide)
  obtain ⟨bs, ok⟩ := always s hs 0
  -- the high-water mark has not moved, so there is no block for the pointer handed out
  have hend := ok.tiles.end_eq
  unfold Heap.highWater at hend
  rw [hvars] at hend
  have hlen : extent 8 bs = 0 := by
    change (0x20001000 : Nat) = 0x20001000 + extent 8 bs at hend
    omega
  obtain ⟨_, size, _, hmem⟩ := ok.live (0x20001008, 2 ^ 32 - 8) (by rw [hlive]; exact .head _)
  have hrange := payloads_range hmem
  rw [hlen] at hrange
  omega

end Rtbus.Pool
