import Rtbus.Pool.Tiles

/-!
# The allocator's operations on the list of blocks

`Valid h index bs` is the invariant of one pool: its headers describe the blocks `bs`, which are in
normal form and end at the high-water mark, inside the pool. The three specifications say that the
operations keep it and what each does to the list of live payloads: `bmalloc` inserts one entry or
fails and changes nothing, `bfree` of a live payload removes that entry, and `bfree` of anything
else changes nothing. The bytes of all other live payloads are left alone.

The one hypothesis of `bmalloc_spec` is that the rounded size and a header are less than `2 ^ 32`
together. `bmalloc` rounds up and adds the header size in 32 bits without looking at the carry.
-/

namespace Rtbus.Pool

open Rtbus.Tiling

/-- The high-water mark of a pool. Before the first allocation the variable is still zero and the
mark is the base. -/
def Heap.highWater (h : Heap) (index : Nat) : Nat :=
  if (h.pools index).lastHeapObject = 0 then (h.pools index).heapOfMemory
  else (h.pools index).lastHeapObject

/-- The blocks of pool `index` are `bs`. An inactive pool has none. -/
structure Valid (h : Heap) (index : Nat) (bs : List Block) : Prop where
  index_lt : (h.pools index).active = true → index < poolNumMax
  empty : (h.pools index).active = false → bs = []
  idle : (h.pools index).active = false → (h.pools index).heapOfMemory = 0
  base_pos : (h.pools index).active = true → 0 < (h.pools index).heapOfMemory
  base_aligned : (h.pools index).heapOfMemory % 4 = 0
  top_lt : (h.pools index).topOfHeap < 2 ^ 32
  tiles : Tiles h.mem (h.pools index).heapOfMemory bs (h.highWater index)
  le_top : h.highWater index ≤ (h.pools index).topOfHeap
  coalesced : Coalesced bs

/-- The live payloads of a pool whose blocks are `bs`. -/
def Heap.live (h : Heap) (index : Nat) (bs : List Block) : List (Nat × Nat) :=
  payloads 8 (h.pools index).heapOfMemory bs

/-- The addresses that belong to a pool. -/
def PoolVars.Owns (v : PoolVars) (x : Nat) : Prop :=
  v.active = true ∧ v.heapOfMemory ≤ x ∧ x ≤ v.topOfHeap

/-- A heap with the memory and the high-water mark of one pool replaced. -/
def Heap.update (h : Heap) (index : Nat) (m : Memory) (last : Nat) : Heap :=
  ({ h with mem := m } : Heap).setPool index { h.pools index with lastHeapObject := last }

/-- Between two heaps only the bytes and the high-water mark of one pool differ. -/
structure Confined (h h' : Heap) (index : Nat) : Prop where
  pools : ∃ last, h'.pools =
    Function.update h.pools index { h.pools index with lastHeapObject := last }
  mem : ∀ x, ¬ (h.pools index).Owns x → h'.mem x = h.mem x

/-- The bytes of a list of payloads are the same in two memories. -/
def Kept (m m' : Memory) (ps : List (Nat × Nat)) : Prop :=
  ∀ p ∈ ps, ∀ x, p.1 ≤ x → x < p.1 + p.2 → m' x = m x

/-- A request that `bmalloc` can round up and add a header to in 32 bits. -/
def NoCarry (n : Nat) : Prop := (n + 3) / 4 * 4 + 8 < 2 ^ 32

instance (n : Nat) : Decidable (NoCarry n) := inferInstanceAs (Decidable (_ < _))

@[simp] theorem update_pools (h : Heap) (index : Nat) (m : Memory) (last : Nat) :
    (h.update index m last).pools index = { h.pools index with lastHeapObject := last } :=
  Function.update_self ..

/-- Writing the high-water mark back unchanged. -/
theorem update_same {h : Heap} {index last : Nat} (m : Memory)
    (hlast : (h.pools index).lastHeapObject = last) :
    h.update index m last = { h with mem := m } := by
  unfold Heap.update Heap.setPool
  rw [← hlast]
  exact congrArg (Heap.mk m) (Function.update_eq_self index h.pools)

/-- The high-water mark after a block was put at the end. -/
theorem highWater_update (h : Heap) (index : Nat) (m : Memory) {last : Nat} (hl : last ≠ 0) :
    (h.update index m last).highWater index = last := by
  unfold Heap.highWater
  rw [update_pools]
  exact if_neg hl

theorem Confined.refl (h : Heap) (index : Nat) : Confined h h index :=
  ⟨⟨(h.pools index).lastHeapObject, (Function.update_eq_self index h.pools).symm⟩, fun _ _ => rfl⟩

/-- Base, top and flag of the pool stay. -/
theorem Confined.fields {h h' : Heap} {index : Nat} (c : Confined h h' index) :
    (h'.pools index).heapOfMemory = (h.pools index).heapOfMemory ∧
      (h'.pools index).topOfHeap = (h.pools index).topOfHeap ∧
      (h'.pools index).active = (h.pools index).active := by
  obtain ⟨last, hpools⟩ := c.pools
  rw [hpools, Function.update_self]
  exact ⟨rfl, rfl, rfl⟩

/-- So do the addresses that it owns. -/
theorem Confined.owns_iff {h h' : Heap} {index x : Nat} (c : Confined h h' index) :
    (h'.pools index).Owns x ↔ (h.pools index).Owns x := by
  obtain ⟨base, top, active⟩ := c.fields
  unfold PoolVars.Owns
  rw [base, top, active]

/-- What two calls do inside a pool is inside it. -/
theorem Confined.trans {h₁ h₂ h₃ : Heap} {index : Nat} (c₁₂ : Confined h₁ h₂ index)
    (c₂₃ : Confined h₂ h₃ index) : Confined h₁ h₃ index := by
  obtain ⟨l, hl⟩ := c₁₂.pools
  obtain ⟨l', hl'⟩ := c₂₃.pools
  refine ⟨⟨l', ?_⟩, fun x hx => ?_⟩
  · rw [hl', hl, Function.update_self, Function.update_idem]
  · rw [c₂₃.mem x (c₁₂.owns_iff.not.mpr hx), c₁₂.mem x hx]

/-- A change inside the area of an active pool is confined to it. -/
theorem confined_update {h : Heap} {index last lo hi : Nat} {m : Memory}
    (active : (h.pools index).active = true) (agree : Memory.AgreeOff h.mem m lo hi)
    (hlo : (h.pools index).heapOfMemory ≤ lo) (hhi : hi ≤ (h.pools index).topOfHeap + 1) :
    Confined h (h.update index m last) index := by
  refine ⟨⟨last, rfl⟩, fun x hx => agree x (Classical.byContradiction fun hin => hx ?_)⟩
  exact ⟨active, by omega, by omega⟩

/-- Payloads before and behind the range in which two memories differ keep their bytes. -/
theorem kept_of_agreeOff {m m' : Memory} {a lo hi b : Nat} {pre post : List Block}
    (agree : Memory.AgreeOff m m' lo hi) (hpre : a + extent 8 pre ≤ lo) (hpost : hi ≤ b + 8) :
    Kept m m' (payloads 8 a pre ++ payloads 8 b post) := by
  intro p hp x hx hx'
  rcases List.mem_append.mp hp with hp | hp
  · have := payloads_range hp
    exact agree x (.inl (by omega))
  · have := payloads_range hp
    exact agree x (.inr (by omega))

/-- The addresses of payloads are distinct. -/
theorem payloads_nodup (a : Nat) (bs : List Block) :
    ((payloads 8 a bs).map Prod.fst).Nodup := by
  rw [List.nodup_iff_pairwise_ne, List.pairwise_map]
  exact (payloads_pairwise a bs).imp fun h => by omega

/-- Two live payloads are the same or do not overlap. -/
theorem live_apart {h : Heap} {index : Nat} {bs : List Block} {p q : Nat × Nat} (hp : p ∈ h.live index bs)
    (hq : q ∈ h.live index bs) (hne : p.1 ≠ q.1) : p.1 + p.2 ≤ q.1 ∨ q.1 + q.2 ≤ p.1 := by
  have hpair := @payloads_pairwise 8 (h.pools index).heapOfMemory bs
  obtain ⟨i, hi, rfl⟩ := List.mem_iff_getElem.mp hp
  obtain ⟨j, hj, rfl⟩ := List.mem_iff_getElem.mp hq
  rw [List.pairwise_iff_getElem] at hpair
  rcases Nat.lt_trichotomy i j with hij | rfl | hij
  · have := hpair i j hi hj hij
    exact .inl (by show (h.live index bs)[i].1 + _ ≤ _; unfold Heap.live at *; omega)
  · exact absurd rfl hne
  · have := hpair j i hj hi hij
    exact .inr (by show (h.live index bs)[j].1 + _ ≤ _; unfold Heap.live at *; omega)

namespace Valid

variable {h : Heap} {index : Nat} {bs : List Block}

/-- The high-water mark is where the blocks end. -/
theorem highWater_eq (v : Valid h index bs) :
    h.highWater index = (h.pools index).heapOfMemory + extent 8 bs := v.tiles.end_eq

/-- It lies in the 32-bit address space. -/
theorem highWater_lt (v : Valid h index bs) : h.highWater index < 2 ^ 32 :=
  Nat.lt_of_le_of_lt v.le_top v.top_lt

/-- The scans have more steps than the pool has blocks. -/
theorem length_lt (v : Valid h index bs) : bs.length < chainMax := by
  have h1 := @length_mul_le_extent 8 bs
  have h2 := v.highWater_eq
  have h3 := v.highWater_lt
  unfold chainMax
  omega

/-- A pool without a live payload is empty. -/
theorem highWater_eq_base (v : Valid h index bs) (none : h.live index bs = []) :
    h.highWater index = (h.pools index).heapOfMemory := by
  rw [v.highWater_eq, v.coalesced.eq_nil ((payloads_eq_nil_iff _ bs).mp none), extent_nil]
  rfl

/-- Payloads are word aligned. -/
theorem live_aligned (v : Valid h index bs) {p : Nat × Nat} (hp : p ∈ h.live index bs) :
    p.1 % 4 = 0 := by
  have key : ∀ (bs : List Block) (a c : Nat), a % 4 = 0 → Tiles h.mem a bs c →
      ∀ p ∈ payloads 8 a bs, p.1 % 4 = 0 := by
    intro bs
    induction bs with
    | nil => simp
    | cons b bs ih =>
      intro a c ha tiles p hp
      obtain ⟨_, _, _, align, rest⟩ := tiles
      have tail := ih (a + 8 + b.size) c (by omega) rest p
      simp only [payloads] at hp
      split at hp
      · rcases List.mem_cons.mp hp with rfl | hp
        · show (a + 8) % 4 = 0
          omega
        · exact tail hp
      · exact tail hp
  exact key bs _ _ v.base_aligned v.tiles p hp

/-- Live payloads lie behind the first header and below the high-water mark. -/
theorem live_range (v : Valid h index bs) {p : Nat × Nat} (hp : p ∈ h.live index bs) :
    (h.pools index).heapOfMemory + 8 ≤ p.1 ∧ p.1 + p.2 ≤ h.highWater index := by
  rw [v.highWater_eq]
  exact payloads_range hp

/-- Live payloads hold at least four bytes. -/
theorem live_size (v : Valid h index bs) {p : Nat × Nat} (hp : p ∈ h.live index bs) : 4 ≤ p.2 := by
  obtain ⟨pre, post, rfl, _⟩ := mem_payloads hp
  exact (tiles_append.mp v.tiles).2.2.2.1

/-- No more live payloads than steps of a scan. -/
theorem live_length_lt (v : Valid h index bs) : (h.live index bs).length < chainMax := by
  have key : ∀ (bs : List Block) (a : Nat), (payloads 8 a bs).length ≤ bs.length := by
    intro bs
    induction bs with
    | nil => exact fun _ => Nat.le_refl _
    | cons b bs ih =>
      intro a
      have := ih (a + 8 + b.size)
      rw [payloads]
      split
      · rw [List.length_cons, List.length_cons]
        omega
      · rw [List.length_cons]
        omega
  exact Nat.lt_of_le_of_lt (key bs _) v.length_lt

/-- The bytes of a live payload belong to the pool. -/
theorem owns_live (v : Valid h index bs) {p : Nat × Nat} (hp : p ∈ h.live index bs) {x : Nat}
    (lo : p.1 ≤ x) (hi : x < p.1 + p.2) : (h.pools index).Owns x := by
  have hrange := v.live_range hp
  have hle := v.le_top
  refine ⟨?_, by omega, by omega⟩
  cases hactive : (h.pools index).active with
  | true => rfl
  | false =>
    unfold Heap.live at hp
    rw [v.empty hactive] at hp
    cases hp

/-- A pool whose headers have been rewritten to describe other blocks. -/
theorem update (v : Valid h index bs) (active : (h.pools index).active = true) {m : Memory}
    {last : Nat} {bs' : List Block} (tiles : Tiles m (h.pools index).heapOfMemory bs' last)
    (le_top : last ≤ (h.pools index).topOfHeap) (coalesced : Coalesced bs') :
    Valid (h.update index m last) index bs' := by
  have hend := tiles.end_eq
  have hbase := v.base_pos active
  have hlast : last ≠ 0 := by omega
  have hhigh := highWater_update h index m hlast
  refine ⟨?_, ?_, ?_, ?_, ?_, ?_, ?_, ?_, coalesced⟩
  · rw [update_pools]
    exact v.index_lt
  · rw [update_pools]
    exact fun h' => absurd (active.symm.trans h') (by simp)
  · rw [update_pools]
    exact v.idle
  · rw [update_pools]
    exact v.base_pos
  · rw [update_pools]
    exact v.base_aligned
  · rw [update_pools]
    exact v.top_lt
  · rw [update_pools, hhigh]
    exact tiles
  · rw [update_pools, hhigh]
    exact le_top

/-- A pool none of whose bytes and variables changed. -/
theorem frame (v : Valid h index bs) {h' : Heap} (hpools : h'.pools index = h.pools index)
    (hmem : ∀ x, (h.pools index).Owns x → h'.mem x = h.mem x) : Valid h' index bs := by
  have hhigh : h'.highWater index = h.highWater index := by
    unfold Heap.highWater
    rw [hpools]
  have htiles : Tiles h'.mem (h.pools index).heapOfMemory bs (h.highWater index) := by
    cases hactive : (h.pools index).active with
    | false =>
      have := v.tiles
      rw [v.empty hactive] at this ⊢
      exact this
    | true =>
      have := v.le_top
      exact v.tiles.congr fun x hx hx' => hmem x ⟨hactive, hx, by omega⟩
  refine ⟨?_, ?_, ?_, ?_, ?_, ?_, ?_, ?_, v.coalesced⟩
  · rw [hpools]
    exact v.index_lt
  · rw [hpools]
    exact v.empty
  · rw [hpools]
    exact v.idle
  · rw [hpools]
    exact v.base_pos
  · rw [hpools]
    exact v.base_aligned
  · rw [hpools]
    exact v.top_lt
  · rw [hpools, hhigh]
    exact htiles
  · rw [hpools, hhigh]
    exact v.le_top

/-- A store into a live payload leaves the headers alone. -/
theorem store (v : Valid h index bs) {p : Nat × Nat} (hp : p ∈ h.live index bs) {m : Memory}
    (agree : Memory.AgreeOff h.mem m p.1 (p.1 + p.2)) : Valid { h with mem := m } index bs := by
  obtain ⟨pre, post, rfl, haddr⟩ := mem_payloads hp
  obtain ⟨hpre, hrest⟩ := tiles_append.mp v.tiles
  obtain ⟨hbusy, hnext, hfour, halign, _⟩ := hrest
  have hmid : Tiles m ((h.pools index).heapOfMemory + extent 8 pre) [⟨true, p.2⟩]
      ((h.pools index).heapOfMemory + extent 8 pre + extent 8 [⟨true, p.2⟩]) := by
    refine tiles_singleton.mpr ⟨?_, ?_, hfour, halign, Nat.add_assoc ..⟩
    · rw [isBusy_of_agreeOff agree (by omega), hbusy]
    · rw [next_of_agreeOff agree (by omega), hnext]
  have hext : extent 8 [⟨true, p.2⟩] = 8 + p.2 := rfl
  exact { v with
    tiles := @Tiles.splice _ _ _ _ pre [⟨true, p.2⟩] _ post v.tiles rfl
      (agree.widen (by omega) (by omega)) hmid }

end Valid

/-- The live payloads are a matter of the blocks, not of the bytes. -/
theorem live_update (h : Heap) (index : Nat) (m : Memory) (last : Nat) (bs : List Block) :
    (h.update index m last).live index bs = h.live index bs := by
  unfold Heap.live
  rw [update_pools]

/-! ## `init_mem_pool` -/

/-- The allocator's variables before the first `init_mem_pool`, in zeroed static storage. -/
def PoolVars.zero : PoolVars :=
  { lastHeapObject := 0, heapOfMemory := null, topOfHeap := null, active := false }

/-- A pool without blocks whose high-water mark is not set up yet. -/
theorem valid_fresh {h : Heap} {index : Nat} {v : PoolVars} (hv : h.pools index = v)
    (index_lt : v.active = true → index < poolNumMax)
    (idle : v.active = false → v.heapOfMemory = 0) (hlast : v.lastHeapObject = 0)
    (base_pos : v.active = true → 0 < v.heapOfMemory) (aligned : v.heapOfMemory % 4 = 0)
    (le_top : v.heapOfMemory ≤ v.topOfHeap) (top_lt : v.topOfHeap < 2 ^ 32) :
    Valid h index [] ∧ h.highWater index = v.heapOfMemory := by
  have hhigh : h.highWater index = v.heapOfMemory := by
    unfold Heap.highWater
    rw [hv]
    exact if_pos hlast
  subst hv
  refine ⟨⟨index_lt, fun _ => rfl, idle, base_pos, aligned, top_lt, hhigh.symm, ?_, coalesced_nil⟩, hhigh⟩
  rw [hhigh]
  exact le_top

/-- `init_mem_pool` on a range of the address space leaves the pool empty: unusable, or with its
area inside the range. Other pools keep their variables, and only bytes of the range change. -/
theorem initMemPool_spec {h : Heap} {index heap len : Nat} (hindex : index < poolNumMax)
    (range : heap + len ≤ 2 ^ 32) :
    let h' := initMemPool h index heap len
    Valid h' index [] ∧ (∀ x, (h'.pools index).Owns x → heap ≤ x ∧ x < heap + len) ∧
      (∀ j, j ≠ index → h'.pools j = h.pools j) ∧
      Memory.AgreeOff h.mem h'.mem heap (heap + len) ∧
      h'.highWater index = (h'.pools index).heapOfMemory := by
  have unusable : ∀ g : Heap, g.pools = Function.update h.pools index PoolVars.zero →
      g.mem = h.mem → Valid g index [] ∧ (∀ x, (g.pools index).Owns x → heap ≤ x ∧ x < heap + len) ∧
        (∀ j, j ≠ index → g.pools j = h.pools j) ∧
        Memory.AgreeOff h.mem g.mem heap (heap + len) ∧
        g.highWater index = (g.pools index).heapOfMemory := by
    intro g hpools hmem
    have hzero : g.pools index = PoolVars.zero := by rw [hpools, Function.update_self]
    obtain ⟨valid, hhigh⟩ := valid_fresh hzero (fun _ => hindex) (fun _ => rfl) rfl
      (fun h' => absurd h' (by decide)) rfl (Nat.le_refl 0) (Nat.two_pow_pos 32)
    refine ⟨valid, ?_, ?_, ?_, ?_⟩
    · rw [hzero]
      rintro x ⟨h', _⟩
      cases h'
    · intro j hj
      rw [hpools, Function.update_of_ne hj]
    · rw [hmem]
      exact Memory.AgreeOff.refl _ _ _
    · rw [hhigh, hzero]
  unfold initMemPool
  rw [if_neg (Nat.not_le.mpr hindex)]
  dsimp only
  split
  · exact unusable _ rfl rfl
  · rename_i hsmall
    have hstart : roundUp heap = (heap + 3) / 4 * 4 := by
      change ¬ (heap = 0 ∨ len ≤ 8) at hsmall
      unfold roundUp wrap maxAlignment
      omega
    obtain ⟨start, hs⟩ : ∃ start, (heap + 3) / 4 * 4 = start := ⟨_, rfl⟩
    have hskip : sub32 start heap = start - heap := by
      change ¬ (heap = 0 ∨ len ≤ 8) at hsmall
      unfold sub32
      omega
    rw [hstart, hs, hskip]
    split
    · exact unusable _ rfl rfl
    · rename_i hroom
      change ¬ (heap = 0 ∨ len ≤ 8) at hsmall
      have hroom' : start - heap + 8 < len := by
        change ¬ len ≤ wrap (start - heap + 8) at hroom
        unfold wrap at hroom
        omega
      have htop : wrap (start + (len - (start - heap) - 1)) = start + (len - (start - heap) - 1) :=
        Nat.mod_eq_of_lt (by omega)
      rw [htop]
      obtain ⟨vars, hvars⟩ : ∃ vars : PoolVars, vars =
          { lastHeapObject := 0, heapOfMemory := start,
            topOfHeap := start + (len - (start - heap) - 1), active := true } := ⟨_, rfl⟩
      dsimp only [Heap.setPool]
      rw [Function.update_idem, ← hvars]
      obtain ⟨valid, hhigh⟩ := valid_fresh (v := vars)
        (h := Heap.mk (h.mem.fill start (len - (start - heap)) 0)
          (Function.update h.pools index vars))
        (Function.update_self ..) (fun _ => hindex) (fun h' => absurd h' (by rw [hvars]; simp))
        (by rw [hvars]) (by rw [hvars]; show _ → 0 < start; omega)
        (by rw [hvars]; show start % 4 = 0; omega)
        (by rw [hvars]; exact Nat.le_add_right _ _)
        (by rw [hvars]; show start + (len - (start - heap) - 1) < 2 ^ 32; omega)
      refine ⟨valid, ?_, fun j hj => Function.update_of_ne hj .., ?_, ?_⟩
      · rw [Function.update_self, hvars]
        rintro x ⟨_, hlo, hhi⟩
        change start ≤ x at hlo
        change x ≤ start + (len - (start - heap) - 1) at hhi
        omega
      · exact (Memory.fill_agreeOff _ _ _ _).widen (by omega) (by omega)
      · rw [hhigh, Function.update_self]

/-! ## `bmalloc` -/

/-- The blocks that a hole of `size` bytes becomes when `n` of them are handed out: the tail is a
hole of its own if a header and more fits. -/
def split (size n : Nat) : List Block :=
  if size - n > 8 then [⟨true, n⟩, ⟨false, size - n - 8⟩] else [⟨true, size⟩]

/-- The blocks after the first hole of at least `n` bytes is handed out. -/
def reuse (n : Nat) : List Block → Option (List Block)
  | [] => none
  | b :: bs =>
    if b.busy = false ∧ n ≤ b.size then some (split b.size n ++ bs) else (reuse n bs).map (b :: ·)

/-- The allocation policy on the list of blocks: behind the last block if `room` bytes reach that
far, else in the first hole that is large enough. -/
def place (room n : Nat) (bs : List Block) : Option (List Block) :=
  if extent 8 bs + (n + 8) ≤ room then some (bs ++ [⟨true, n⟩]) else reuse n bs

/-- No free block is large enough. -/
theorem reuse_eq_none {n : Nat} {bs : List Block} (h : ∀ b ∈ bs, b.busy = false → b.size < n) :
    reuse n bs = none := by
  induction bs with
  | nil => rfl
  | cons b bs ih =>
    have hb : ¬ (b.busy = false ∧ n ≤ b.size) :=
      fun ⟨hfree, hle⟩ => Nat.not_lt.mpr hle (h b (List.mem_cons_self ..) hfree)
    rw [reuse, if_neg hb, ih fun c hc => h c (List.mem_cons_of_mem _ hc)]
    rfl

/-- The first free block that is large enough is taken, and split. -/
theorem reuse_append {n size : Nat} {pre post : List Block}
    (h : ∀ b ∈ pre, b.busy = false → b.size < n) (fits : n ≤ size) :
    reuse n (pre ++ ⟨false, size⟩ :: post) = some (pre ++ (split size n ++ post)) := by
  induction pre with
  | nil => exact if_pos ⟨rfl, fits⟩
  | cons b pre ih =>
    have hb : ¬ (b.busy = false ∧ n ≤ b.size) :=
      fun ⟨hfree, hle⟩ => Nat.not_lt.mpr hle (h b (List.mem_cons_self ..) hfree)
    rw [List.cons_append, reuse, if_neg hb, ih fun c hc => h c (List.mem_cons_of_mem _ hc)]
    rfl

/-- What `bmalloc` may do to a valid pool: fail, or insert one live payload. -/
def Allocated (h : Heap) (index n : Nat) (bs : List Block) (h' : Heap) (p : Nat)
    (bs' : List Block) : Prop :=
  Valid h' index bs' ∧ Confined h h' index ∧
    ((p = null ∧ bs' = bs ∧ h'.mem = h.mem) ∨
      (p ≠ null ∧ ∃ l₁ l₂ size, n ≤ size ∧ h.live index bs = l₁ ++ l₂ ∧
        h'.live index bs' = l₁ ++ (p, size) :: l₂ ∧ Kept h.mem h'.mem (l₁ ++ l₂)))

/-- A size that leaves room for a header is rounded up without a wrap. -/
theorem roundUp_eq {n : Nat} (small : NoCarry n) : roundUp n = (n + 3) / 4 * 4 := by
  unfold NoCarry at small
  unfold roundUp wrap maxAlignment
  omega

/-- The fast path: a new block at the high-water mark. -/
theorem append_spec {h : Heap} {index n : Nat} {bs : List Block} (v : Valid h index bs)
    (active : (h.pools index).active = true) (four : 4 ≤ n) (align : n % 4 = 0)
    (room : h.highWater index + (n + 8) ≤ (h.pools index).topOfHeap) :
    let last := h.highWater index
    let m := (setNext (setBusy h.mem last index) last (last + (n + 8))).fill (last + 8) n 0
    Allocated h index n bs (h.update index m (last + (n + 8))) (last + 8) (bs ++ [⟨true, n⟩]) := by
  intro last m
  have hlt := v.top_lt
  have hend := v.highWater_eq
  have hflag := setBusy_agreeOff h.mem last index
  have hnext := setNext_agreeOff (setBusy h.mem last index) last (last + (n + 8))
  have hfill := Memory.fill_agreeOff (setNext (setBusy h.mem last index) last (last + (n + 8)))
    (last + 8) n 0
  have agree : Memory.AgreeOff h.mem m last (last + (n + 8)) :=
    ((hflag.widen (Nat.le_refl _) (by omega)).trans
      (hnext.widen (by omega) (by omega))).trans (hfill.widen (by omega) (by omega))
  have hbusy : isBusy m last = true := by
    rw [isBusy_of_agreeOff hfill (by omega), isBusy_of_agreeOff hnext (by omega),
      isBusy_setBusy]
  have hnextw : next m last = last + 8 + n := by
    rw [next_of_agreeOff hfill (by omega), next_setNext _ _ (by omega)]
    omega
  have htiles : Tiles m (h.pools index).heapOfMemory (bs ++ [⟨true, n⟩]) (last + (n + 8)) := by
    refine tiles_append.mpr ⟨?_, ?_⟩
    · rw [← hend]
      exact v.tiles.congr fun x _ hx => agree x (.inl hx)
    · rw [← hend]
      exact tiles_singleton.mpr ⟨hbusy, hnextw, four, align, by show last + 8 + n = _; omega⟩
  refine ⟨v.update active htiles room (v.coalesced.snoc n),
    confined_update active agree (by omega) (by omega), .inr ⟨by simp, ?_⟩⟩
  refine ⟨h.live index bs, [], n, Nat.le_refl n, (List.append_nil _).symm, ?_, ?_⟩
  · rw [live_update]
    unfold Heap.live
    rw [payloads_append, ← hend]
    rfl
  · exact @kept_of_agreeOff _ _ _ _ _ (last + (n + 8)) _ [] agree (Nat.le_of_eq hend.symm)
      (by omega)

/-- The slow path: a free block handed out, its unused tail split off if a header fits. -/
theorem reuse_spec {h : Heap} {index n size : Nat} {pre post : List Block}
    (v : Valid h index (pre ++ ⟨false, size⟩ :: post))
    (active : (h.pools index).active = true) (four : 4 ≤ n) (align : n % 4 = 0) (fits : n ≤ size)
    (hlast : (h.pools index).lastHeapObject = h.highWater index) :
    let a := (h.pools index).heapOfMemory + extent 8 pre
    Allocated h index n (pre ++ ⟨false, size⟩ :: post)
      { h with mem := makeNewMemHole (setBusy h.mem a index) a (a + 8 + n) } (a + 8)
      (pre ++ (split size n ++ post)) := by
  intro a
  have hlt := v.highWater_lt
  obtain ⟨hpre, hrest⟩ := tiles_append.mp v.tiles
  obtain ⟨_, hnext, _, hsize, hpost⟩ := hrest
  have hend := hpost.end_eq
  have hbasepos := v.base_pos active
  change next h.mem a = a + 8 + size at hnext
  change Tiles h.mem (a + 8 + size) post _ at hpost
  change h.highWater index = a + 8 + size + extent 8 post at hend
  have hflag := setBusy_agreeOff h.mem a index
  have hnext1 : next (setBusy h.mem a index) a = a + 8 + size := by
    rw [next_of_agreeOff hflag (by omega), hnext]
  obtain ⟨t, zs, hzs, hpostc⟩ := v.coalesced.behind_free
  have hprec := v.coalesced.before_free
  -- everything but the description of the reused block is the same in both cases
  have finish : ∀ (m : Memory) (mid' : List Block) (used : Nat), n ≤ used →
      Memory.AgreeOff h.mem m a (a + 8 + size) → Tiles m a mid' (a + 8 + size) →
      extent 8 mid' = 8 + size → Coalesced (pre ++ (mid' ++ post)) →
      payloads 8 a mid' = [(a + 8, used)] →
      Allocated h index n (pre ++ ⟨false, size⟩ :: post) { h with mem := m } (a + 8)
        (pre ++ (mid' ++ post)) := by
    intro m mid' used hused agree hmid hext hcoal hpay
    have same : extent 8 mid' = extent 8 [⟨false, size⟩] := by
      rw [hext]
      rfl
    have stretch : a + 8 + size = a + extent 8 [⟨false, size⟩] := by
      show a + 8 + size = a + (8 + size + 0)
      omega
    have htiles : Tiles m (h.pools index).heapOfMemory (pre ++ (mid' ++ post))
        (h.highWater index) :=
      @Tiles.splice _ _ _ _ pre [⟨false, size⟩] _ post v.tiles same (stretch ▸ agree)
        (stretch ▸ hmid)
    have htop := v.le_top
    have hlive := live_update h index m (h.highWater index) (pre ++ (mid' ++ post))
    have hv := v.update active htiles htop hcoal
    have hc : Confined h (h.update index m (h.highWater index)) index :=
      confined_update active agree (by omega) (by omega)
    rw [update_same m hlast] at hlive hv hc
    refine ⟨hv, hc, .inr ⟨by simp, payloads 8 (h.pools index).heapOfMemory pre,
      payloads 8 (a + 8 + size) post, used, hused, payloads_append .., ?_,
      kept_of_agreeOff agree (Nat.le_refl _) (by omega)⟩⟩
    rw [hlive]
    unfold Heap.live
    rw [payloads_append, payloads_append, hext]
    show _ ++ (payloads 8 a mid' ++ payloads 8 (a + (8 + size)) post) = _
    rw [hpay, ← Nat.add_assoc]
    rfl
  unfold makeNewMemHole split
  simp only [hnext1]
  rw [show sub32 (a + 8 + size) (a + 8 + n) = size - n by unfold sub32; omega]
  by_cases hsplit : size - n > 8
  · -- the tail becomes a hole of its own
    rw [if_pos hsplit, if_pos hsplit]
    have hn1 := setNext_agreeOff (setBusy h.mem a index) a (a + 8 + n)
    have hclr := clearBusy_agreeOff (setNext (setBusy h.mem a index) a (a + 8 + n)) (a + 8 + n)
    have hn2 := setNext_agreeOff (clearBusy (setNext (setBusy h.mem a index) a (a + 8 + n))
      (a + 8 + n)) (a + 8 + n) (a + 8 + size)
    refine finish _ [⟨true, n⟩, ⟨false, size - n - 8⟩] n (Nat.le_refl n) ?_ ?_ ?_ ?_ rfl
    · exact (((hflag.widen (Nat.le_refl _) (by omega)).trans
        (hn1.widen (by omega) (by omega))).trans (hclr.widen (by omega) (by omega))).trans
        (hn2.widen (by omega) (by omega))
    · refine ⟨?_, ?_, four, align, ?_, ?_, ?_, ?_, ?_⟩
      · rw [isBusy_of_agreeOff hn2 (by omega), isBusy_of_agreeOff hclr (by omega),
          isBusy_of_agreeOff hn1 (by omega), isBusy_setBusy]
      · rw [next_of_agreeOff hn2 (by omega), next_of_agreeOff hclr (by omega),
          next_setNext _ _ (by omega)]
      · show isBusy _ (a + 8 + n) = false
        rw [isBusy_of_agreeOff hn2 (by omega), isBusy_clearBusy]
      · show next _ (a + 8 + n) = a + 8 + n + 8 + (size - n - 8)
        rw [next_setNext _ _ (by omega)]
        omega
      · show 4 ≤ size - n - 8
        change size % 4 = 0 at hsize
        omega
      · show (size - n - 8) % 4 = 0
        change size % 4 = 0 at hsize
        omega
      · show a + 8 + n + 8 + (size - n - 8) = a + 8 + size
        omega
    · simp only [extent_cons, extent_nil]
      omega
    · refine coalesced_append_cons.mpr ⟨hprec.1, coalesced_cons_busy.mpr ?_, fun _ _ => .inr rfl⟩
      exact coalesced_cons_free.mpr ⟨t, zs, hzs, hpostc⟩
  · -- the block is handed out whole
    rw [if_neg hsplit, if_neg hsplit]
    refine finish _ [⟨true, size⟩] size fits
      (hflag.widen (Nat.le_refl _) (by omega)) ?_ rfl ?_ rfl
    · exact tiles_singleton.mpr ⟨isBusy_setBusy .., hnext1, Nat.le_trans four fits, hsize, rfl⟩
    · exact coalesced_append_cons.mpr
        ⟨hprec.1, coalesced_cons_busy.mpr hpostc, fun _ _ => .inr rfl⟩

/-- `bmalloc` returns, keeps the pool valid, and inserts one live payload of at least the requested
size or changes nothing. On an active pool it follows `place`. -/
theorem bmalloc_spec {h : Heap} {index n : Nat} {bs : List Block} (v : Valid h index bs)
    (small : NoCarry n) :
    ∃ h' p bs', bmalloc h index n = some (h', p) ∧ Allocated h index n bs h' p bs' ∧
      ((h.pools index).active = true → n ≠ 0 →
        place ((h.pools index).topOfHeap - (h.pools index).heapOfMemory) ((n + 3) / 4 * 4) bs =
          if p = null then none else some bs') := by
  by_cases hgate : index ≥ poolNumMax ∨ (h.pools index).active = false ∨ n = 0
  · refine ⟨h, null, bs, ?_, ⟨v, Confined.refl h index, .inl ⟨rfl, rfl, rfl⟩⟩, ?_⟩
    · unfold bmalloc
      rw [if_pos hgate]
    · intro active hn
      rcases hgate with hindex | hinactive | hzero
      · exact absurd (v.index_lt active) (Nat.not_lt.mpr hindex)
      · exact absurd (active.symm.trans hinactive) (by simp)
      · exact absurd hzero hn
  · have hround := roundUp_eq small
    unfold NoCarry at small
    have hgate' := hgate
    simp only [not_or, Bool.not_eq_false] at hgate'
    obtain ⟨_, active, hn⟩ := hgate'
    have hle := v.le_top
    have htop := v.top_lt
    have hbase := v.base_pos active
    have hhigh : h.highWater index = if (h.pools index).lastHeapObject = 0
        then (h.pools index).heapOfMemory else (h.pools index).lastHeapObject := rfl
    -- the rounded size
    obtain ⟨k, hk⟩ : ∃ k, (n + 3) / 4 * 4 = k := ⟨_, rfl⟩
    have hnk : n ≤ k := by omega
    have hfour : 4 ≤ k := by omega
    have halign : k % 4 = 0 := by omega
    rw [hk] at hround small
    have weaken : ∀ {h' p bs'}, Allocated h index k bs h' p bs' → Allocated h index n bs h' p bs' := by
      rintro h' p bs' ⟨hv, hs, hcase⟩
      refine ⟨hv, hs, ?_⟩
      rcases hcase with hcase | ⟨hp, l₁, l₂, size, hsize, hrest⟩
      · exact .inl hcase
      · exact .inr ⟨hp, l₁, l₂, size, Nat.le_trans hnk hsize, hrest⟩
    have hend := v.highWater_eq
    rw [hk]
    unfold bmalloc
    rw [if_neg hgate]
    simp only [hround, ← hhigh]
    have hwrap : wrap (k + headerSize) = k + 8 := Nat.mod_eq_of_lt small
    have hroom : sub32 (h.pools index).topOfHeap (h.highWater index) =
        (h.pools index).topOfHeap - h.highWater index := by
      unfold sub32
      omega
    rw [hwrap, hroom]
    by_cases hfast : k + 8 ≤ (h.pools index).topOfHeap - h.highWater index
    · rw [if_pos hfast]
      have hlast : wrap (h.highWater index + (k + 8)) = h.highWater index + (k + 8) :=
        Nat.mod_eq_of_lt (by omega)
      have hresult : sub32 (h.highWater index + (k + 8)) k = h.highWater index + 8 := by
        unfold sub32
        omega
      rw [hlast, hresult, if_pos (by omega)]
      refine ⟨_, _, _, rfl, weaken (append_spec v active hfour halign (by omega)), fun _ _ => ?_⟩
      rw [place, if_pos (by omega), if_neg (by simp)]
    · rw [if_neg hfast]
      have hslow : place ((h.pools index).topOfHeap - (h.pools index).heapOfMemory) k bs =
          reuse k bs := if_neg (by omega)
      rw [hslow]
      -- the lazily set high-water mark is written back
      have v' : Valid (h.update index h.mem (h.highWater index)) index bs :=
        v.update active v.tiles v.le_top v.coalesced
      have hset : Confined h (h.update index h.mem (h.highWater index)) index :=
        ⟨⟨_, rfl⟩, fun _ _ => rfl⟩
      have hscan := findHole_spec (n := k) v.tiles v.highWater_lt v.length_lt
      rcases hscan with ⟨hnone, hall⟩ | ⟨pre, size, post, rfl, hsize, hall, hfound⟩
      · refine ⟨_, null, bs, ?_, ⟨v', hset, .inl ⟨rfl, rfl, rfl⟩⟩, fun _ _ => reuse_eq_none hall⟩
        simp only [Heap.setPool, hnone]
        rfl
      · simp only [extent_append, extent_cons] at hend
        have hret : wrap ((h.pools index).heapOfMemory + extent 8 pre + headerSize) =
            (h.pools index).heapOfMemory + extent 8 pre + 8 :=
          Nat.mod_eq_of_lt (by show _ + 8 < _; omega)
        have hsplit : wrap ((h.pools index).heapOfMemory + extent 8 pre + 8 + k) =
            (h.pools index).heapOfMemory + extent 8 pre + 8 + k := Nat.mod_eq_of_lt (by omega)
        have hhigh' : (h.update index h.mem (h.highWater index)).highWater index =
            h.highWater index := highWater_update h index h.mem (by omega)
        have hbs' := reuse_spec v' (by rw [update_pools]; exact active) hfour halign hsize
          (by rw [hhigh', update_pools])
        rw [update_pools] at hbs'
        refine ⟨_, (h.pools index).heapOfMemory + extent 8 pre + 8, _, ?_,
          weaken ⟨hbs'.1, hset.trans hbs'.2.1, ?_⟩, fun _ _ => ?_⟩
        · simp only [Heap.update, Heap.setPool, hfound, hret, hsplit]
        · rcases hbs'.2.2 with ⟨hp, _⟩ | ⟨hp, l₁, l₂, used, hused, hlive, hlive', hkept⟩
          · exact absurd hp (by simp)
          · rw [live_update] at hlive
            exact .inr ⟨hp, l₁, l₂, used, hused, hlive, hlive', hkept⟩
        · rw [reuse_append hall hsize, if_neg (by simp)]

/-! ## `bfree` -/

/-- What `bfree` may do to a valid pool: nothing if the pointer is not a live payload, else remove
that payload. -/
def Freed (h : Heap) (index ptr : Nat) (bs : List Block) (h' : Heap) (bs' : List Block) : Prop :=
  Valid h' index bs' ∧ Confined h h' index ∧
    ((h' = h ∧ bs' = bs ∧ ∀ p ∈ h.live index bs, p.1 ≠ ptr) ∨
      ∃ l₁ size l₂, h.live index bs = l₁ ++ (ptr, size) :: l₂ ∧ h'.live index bs' = l₁ ++ l₂ ∧
        Kept h.mem h'.mem (l₁ ++ l₂))

/-- The end of `bfree`: the blocks `mid` have been merged into one free block, and the high-water
mark is lowered to it if nothing stands behind. -/
theorem merge_spec {h : Heap} {index : Nat} (ptr size : Nat) {pre mid post : List Block} {m : Memory}
    (v : Valid h index (pre ++ (mid ++ post))) (active : (h.pools index).active = true)
    (hlast : (h.pools index).lastHeapObject = h.highWater index)
    (hpre : Coalesced pre) (hpost : Coalesced post) (hhead : ∀ b ∈ post.head?, b.busy = true)
    (big : 12 ≤ extent 8 mid) (align : extent 8 mid % 4 = 0)
    (hpay : payloads 8 ((h.pools index).heapOfMemory + extent 8 pre) mid = [(ptr, size)])
    (agree : Memory.AgreeOff h.mem m ((h.pools index).heapOfMemory + extent 8 pre)
      ((h.pools index).heapOfMemory + extent 8 pre + extent 8 mid))
    (hbusy : isBusy m ((h.pools index).heapOfMemory + extent 8 pre) = false)
    (hnext : next m ((h.pools index).heapOfMemory + extent 8 pre) =
      (h.pools index).heapOfMemory + extent 8 pre + extent 8 mid) :
    let a := (h.pools index).heapOfMemory + extent 8 pre
    ∃ bs', Freed h index ptr (pre ++ (mid ++ post))
      (if next m a = (h.pools index).lastHeapObject then
        ({ h with mem := m } : Heap).setPool index
          { h.pools index with lastHeapObject := a }
      else { h with mem := m }) bs' := by
  intro a
  have hend := v.highWater_eq
  have hbase := v.base_pos active
  rw [extent_append, extent_append] at hend
  have hlive : h.live index (pre ++ (mid ++ post)) =
      payloads 8 (h.pools index).heapOfMemory pre ++
        (ptr, size) :: payloads 8 (a + extent 8 mid) post := by
    unfold Heap.live
    rw [payloads_append, payloads_append, hpay]
    rfl
  have hkept : Kept h.mem m (payloads 8 (h.pools index).heapOfMemory pre ++
      payloads 8 (a + extent 8 mid) post) :=
    kept_of_agreeOff agree (Nat.le_refl _) (Nat.le_add_right _ 8)
  have htop := v.le_top
  have hconf : ∀ last, Confined h (h.update index m last) index :=
    fun last => confined_update active agree (by omega) (by omega)
  cases hq : post with
  | nil =>
    -- the merged block was the last: the mark drops to it
    subst hq
    have hcond : next m a = (h.pools index).lastHeapObject := by
      rw [hnext, hlast, hend]
      simp only [extent_nil]
      omega
    rw [if_pos hcond]
    have htiles : Tiles m (h.pools index).heapOfMemory pre a :=
      (tiles_append.mp v.tiles).1.congr fun x _ hx => agree x (.inl hx)
    refine ⟨pre, v.update active htiles (by omega) hpre, hconf a,
      .inr ⟨_, size, _, hlive, ?_, hkept⟩⟩
    show (h.update index m a).live index pre = _
    rw [live_update, payloads_nil, List.append_nil]
    rfl
  | cons b bs =>
    subst hq
    have hcond : next m a ≠ (h.pools index).lastHeapObject := by
      rw [hnext, hlast, hend]
      simp only [extent_cons]
      omega
    rw [if_neg hcond, ← update_same m hlast]
    have hone : extent 8 [⟨false, extent 8 mid - 8⟩] = extent 8 mid := by
      simp only [extent_cons, extent_nil]
      omega
    have hfree : Tiles m a [⟨false, extent 8 mid - 8⟩] (a + extent 8 mid) :=
      tiles_singleton.mpr ⟨hbusy, by rw [hnext]; show _ = a + 8 + (extent 8 mid - 8); omega,
        by show 4 ≤ extent 8 mid - 8; omega, by show (extent 8 mid - 8) % 4 = 0; omega,
        by show a + 8 + (extent 8 mid - 8) = _; omega⟩
    have htiles := Tiles.splice v.tiles hone agree hfree
    obtain ⟨busy, t⟩ := b
    cases hhead _ rfl
    refine ⟨pre ++ ([⟨false, extent 8 mid - 8⟩] ++ ⟨true, t⟩ :: bs),
      v.update active htiles htop (hpre.join hpost), hconf _, .inr ⟨_, size, _, hlive, ?_, hkept⟩⟩
    rw [live_update]
    unfold Heap.live
    rw [payloads_append, List.singleton_append, payloads_cons_free]
    show _ ++ payloads 8 (a + 8 + (extent 8 mid - 8)) _ = _
    rw [show a + 8 + (extent 8 mid - 8) = a + extent 8 mid by omega]

/-- How far a freed block merges forward: over the free block behind it, if there is one. -/
theorem forward_spec {m : Memory} {curr size last : Nat} {post : List Block}
    (tiles : Tiles m curr (⟨true, size⟩ :: post) last) (coal : Coalesced post) :
    let nextH := if next m curr < last then next m curr else curr
    ∃ gap rest, post = gap ++ rest ∧ Coalesced rest ∧ (∀ b ∈ rest.head?, b.busy = true) ∧
      (∀ a, payloads 8 a gap = []) ∧
      ((isBusy m nextH = true ∧ gap = []) ∨
        (isBusy m nextH = false ∧ next m nextH = curr + 8 + size + extent 8 gap)) := by
  intro nextH
  obtain ⟨hbusy, hnext, _, _, hpost⟩ := tiles
  change next m curr = curr + 8 + size at hnext
  change Tiles m (curr + 8 + size) post last at hpost
  cases post with
  | nil =>
    cases hpost
    have hself : nextH = curr := if_neg (by omega)
    exact ⟨[], [], rfl, coal, by simp, fun _ => rfl, .inl ⟨by rw [hself]; exact hbusy, rfl⟩⟩
  | cons b bs =>
    have hend := hpost.end_eq
    rw [extent_cons] at hend
    have hbehind : nextH = curr + 8 + size := by
      show (if next m curr < last then next m curr else curr) = _
      rw [if_pos (by omega), hnext]
    obtain ⟨hb, hn, _, _, _⟩ := hpost
    obtain ⟨busy, t⟩ := b
    cases busy with
    | true =>
      exact ⟨[], _, rfl, coal, by simp, fun _ => rfl, .inl ⟨by rw [hbehind]; exact hb, rfl⟩⟩
    | false =>
      obtain ⟨s, zs, rfl, hrest⟩ := coalesced_cons_free.mp coal
      refine ⟨[⟨false, t⟩], _, rfl, hrest, by simp, fun _ => rfl, .inr ⟨?_, ?_⟩⟩
      · rw [hbehind]
        exact hb
      · rw [hbehind, hn]
        exact Nat.add_assoc ..

/-- Releasing a block that was found busy. -/
theorem releaseBlock_spec {h : Heap} {index prev size : Nat} {pre post : List Block}
    (v : Valid h index (pre ++ ⟨true, size⟩ :: post)) (active : (h.pools index).active = true)
    (hlast : (h.pools index).lastHeapObject = h.highWater index)
    (hprev : pre = [] ∧ prev = (h.pools index).heapOfMemory ∨
      ∃ pre' q, pre = pre' ++ [q] ∧ prev = (h.pools index).heapOfMemory + extent 8 pre') :
    let curr := (h.pools index).heapOfMemory + extent 8 pre
    ∃ bs', Freed h index (curr + 8) (pre ++ ⟨true, size⟩ :: post)
      (releaseBlock h index prev curr) bs' := by
  intro curr
  have hlt := v.highWater_lt
  have hend := v.highWater_eq
  rw [extent_append, extent_cons] at hend
  obtain ⟨htpre, htiles⟩ := tiles_append.mp v.tiles
  have hcoal := v.coalesced.behind_busy
  obtain ⟨gap, rest, rfl, hrest, hhead, hgap, hfwd⟩ := forward_spec htiles hcoal
  rw [extent_append] at hend
  obtain ⟨hbusy, hnext, hfour, halign, htpost⟩ := htiles
  obtain ⟨htgap, _⟩ := tiles_append.mp htpost
  have hgapmod := htgap.extent_mod
  change isBusy h.mem curr = true at hbusy
  change next h.mem curr = curr + 8 + size at hnext
  change 4 ≤ size at hfour
  change size % 4 = 0 at halign
  -- the address behind everything the freed block merges with forward
  obtain ⟨stop, hstop⟩ : ∃ stop, stop = curr + 8 + size + extent 8 gap := ⟨_, rfl⟩
  have hstoplt : stop < 2 ^ 32 := by
    change h.highWater index = _ + (_ + (8 + size + _)) at hend
    omega
  rw [← hlast] at hfwd
  have hpay : ∀ a, payloads 8 a (⟨true, size⟩ :: gap) = [(a + 8, size)] := by
    intro a
    rw [payloads_cons_busy, hgap]
  unfold releaseBlock
  simp only [hbusy, ↓reduceIte]
  generalize (if next h.mem curr < (h.pools index).lastHeapObject then next h.mem curr else curr) =
    nextH at hfwd
  have hforward : (if isBusy h.mem nextH then next h.mem curr else next h.mem nextH) = stop := by
    rcases hfwd with ⟨hb, rfl⟩ | ⟨hb, hn⟩
    · rw [if_pos hb, hnext, hstop]
      rfl
    · rw [hb, if_neg (by simp), hn, hstop]
  by_cases hback : isBusy h.mem prev = false
  · -- the block before is free: the merged block starts there
    rcases hprev with ⟨rfl, rfl⟩ | ⟨pre', q, rfl, rfl⟩
    · change isBusy h.mem curr = false at hback
      rw [hbusy] at hback
      cases hback
    · obtain ⟨htpre', htq⟩ := tiles_append.mp htpre
      obtain ⟨hqbusy, hqnext, hqfour, hqalign, hqend⟩ := htq
      obtain ⟨busy, t⟩ := q
      rw [hback] at hqbusy
      cases hqbusy
      obtain ⟨a, ha⟩ : ∃ a, a = (h.pools index).heapOfMemory + extent 8 pre' := ⟨_, rfl⟩
      have hcurr : curr = a + 8 + t := by
        rw [ha]
        exact hqend.symm
      have hagree := setNext_agreeOff h.mem a stop
      have v' : Valid h index (pre' ++ ((⟨false, t⟩ :: ⟨true, size⟩ :: gap) ++ rest)) := by
        simpa using v
      have hext : extent 8 (⟨false, t⟩ :: ⟨true, size⟩ :: gap) = 8 + t + (8 + size + extent 8 gap) :=
        rfl
      have hcoal : Coalesced (pre' ++ ⟨false, t⟩ :: (⟨true, size⟩ :: gap ++ rest)) := by
        simpa using v.coalesced
      rw [if_pos hback, hforward, ← ha]
      have := merge_spec (curr + 8) size (m := setNext h.mem a stop) v' active hlast
        hcoal.before_free hrest hhead (by rw [hext]; omega)
        (by
          change t % 4 = 0 at hqalign
          rw [hext]
          omega)
        (by rw [payloads_cons_free, hpay, ← ha, hcurr])
        (by
          rw [hext, ← ha]
          exact hagree.widen (by omega) (by omega))
        (by rw [← ha, isBusy_of_agreeOff hagree (by omega), ha, hback])
        (by rw [← ha, next_setNext _ _ hstoplt, hext, hstop, hcurr]; omega)
      simpa [← ha] using this
  · -- the block before is busy, or there is none
    rw [if_neg hback]
    have hpre : Coalesced pre := by
      obtain ⟨chain, _, _⟩ := coalesced_append_cons.mp v.coalesced
      refine ⟨chain, fun b hb => ?_⟩
      rcases hprev with ⟨rfl, rfl⟩ | ⟨pre', q, rfl, rfl⟩
      · cases hb
      · rw [List.getLast?_concat] at hb
        cases hb
        obtain ⟨_, hq⟩ := tiles_append.mp htpre
        rw [← hq.1]
        simpa using hback
    have v' : Valid h index (pre ++ ((⟨true, size⟩ :: gap) ++ rest)) := by simpa using v
    have hext : extent 8 (⟨true, size⟩ :: gap) = 8 + size + extent 8 gap := rfl
    -- either way the word `next` now names the end of the merged block
    obtain ⟨m, hm, hmnext, hmagree⟩ : ∃ m, m = (if isBusy h.mem nextH = false
        then setNext h.mem curr (next h.mem nextH) else h.mem) ∧ next m curr = stop ∧
        Memory.AgreeOff h.mem m curr (curr + 8) := by
      refine ⟨_, rfl, ?_⟩
      rcases hfwd with ⟨hb, rfl⟩ | ⟨hb, hn⟩
      · rw [hb, if_neg (by simp)]
        exact ⟨by rw [hnext, hstop]; rfl, Memory.AgreeOff.refl _ _ _⟩
      · rw [if_pos hb, hn, ← hstop]
        exact ⟨next_setNext _ _ hstoplt,
          (setNext_agreeOff h.mem curr stop).widen (Nat.le_add_right _ 4) (Nat.le_refl _)⟩
    rw [← hm]
    have hclr := clearBusy_agreeOff m curr
    have := merge_spec (curr + 8) size (m := clearBusy m curr) v' active hlast
      hpre hrest hhead (by rw [hext]; omega) (by rw [hext]; omega) (hpay _)
      (by
        rw [hext]
        exact (hmagree.widen (Nat.le_refl _) (by omega)).trans
          (hclr.widen (Nat.le_refl _) (by omega)))
      (isBusy_clearBusy ..)
      (by
        rw [hext, next_of_agreeOff hclr (by omega), hmnext, hstop]
        omega)
    simpa using this

/-- `bfree` returns and keeps the pool valid; a live payload is removed, any other pointer changes
nothing. -/
theorem bfree_spec {h : Heap} {index : Nat} {bs : List Block} (v : Valid h index bs) (ptr : Nat) :
    ∃ h' bs', bfree h index ptr = some h' ∧ Freed h index ptr bs h' bs' := by
  have unchanged : (∀ p ∈ h.live index bs, p.1 ≠ ptr) → Freed h index ptr bs h bs :=
    fun hdead => ⟨v, Confined.refl h index, .inl ⟨rfl, rfl, hdead⟩⟩
  by_cases hgate : index ≥ poolNumMax ∨ (h.pools index).active = false ∨ ptr = null
  · refine ⟨h, bs, by unfold bfree; rw [if_pos hgate], unchanged fun p hp hptr => ?_⟩
    rcases hgate with hindex | hinactive | hnull
    · cases hactive : (h.pools index).active with
      | true => exact absurd (v.index_lt hactive) (Nat.not_lt.mpr hindex)
      | false =>
        rw [v.empty hactive] at hp
        cases hp
    · rw [v.empty hinactive] at hp
      cases hp
    · have := (v.live_range hp).1
      change ptr = 0 at hnull
      omega
  · have hgate' := hgate
    simp only [not_or, Bool.not_eq_false] at hgate'
    obtain ⟨_, active, _⟩ := hgate'
    unfold bfree
    rw [if_neg hgate]
    by_cases hzero : (h.pools index).lastHeapObject = 0
    · -- nothing has been allocated yet
      have hhigh : h.highWater index = (h.pools index).heapOfMemory := if_pos hzero
      have hbs : bs = [] := by
        have := v.highWater_eq
        cases bs with
        | nil => rfl
        | cons b bs =>
          rw [extent_cons] at this
          omega
      subst hbs
      refine ⟨h, [], ?_, unchanged (by simp [Heap.live])⟩
      have hscan (fuel prev curr : Nat) : findBlock h.mem 0 ptr (fuel + 1) prev curr = some none :=
        if_neg (Nat.not_lt_zero curr)
      dsimp only
      rw [hzero, show chainMax = 2 ^ 32 - 1 + 1 from rfl, hscan]
    · have hlast : (h.pools index).lastHeapObject = h.highWater index := (if_neg hzero).symm
      rcases @findBlock_spec _ _ _ ptr _ (h.pools index).heapOfMemory v.tiles v.highWater_lt
        _ v.length_lt with
        ⟨hnone, hall⟩ | ⟨pre, b, post, prev, rfl, hptr, hres, hprev⟩
      · refine ⟨h, bs, by simp only [hlast, hnone], unchanged fun p hp hpp => ?_⟩
        obtain ⟨pre, post, hbs, haddr⟩ := mem_payloads hp
        exact hall pre _ post hbs (by rw [← hpp, haddr])
      · simp only [hlast, hres]
        obtain ⟨busy, size⟩ := b
        cases busy with
        | true =>
          obtain ⟨bs', hfreed⟩ := releaseBlock_spec v active hlast hprev
          exact ⟨_, bs', rfl, by rw [hptr]; exact hfreed⟩
        | false =>
          -- the block is a hole: its payload address is not live
          have hhole : isBusy h.mem ((h.pools index).heapOfMemory + extent 8 pre) = false :=
            (tiles_append.mp v.tiles).2.1
          have hsame : releaseBlock h index prev ((h.pools index).heapOfMemory + extent 8 pre) =
              h := by
            unfold releaseBlock
            simp only [hhole, Bool.false_eq_true, ↓reduceIte]
          refine ⟨h, _, by rw [hsame], unchanged fun p hp hpp => ?_⟩
          unfold Heap.live at hp
          rw [payloads_append, payloads_cons_free] at hp
          rcases List.mem_append.mp hp with hp | hp
          · have := payloads_range hp
            omega
          · have := payloads_range hp
            omega

end Rtbus.Pool
