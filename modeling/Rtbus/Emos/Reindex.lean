import Rtbus.Emos.Linklist

/-!
# Reindexing a linked list

`linklist_reidx` is to move one node of a list to its end. It unlinks the node, looks for the last
node of what is left, and appends. Where it looks from, `last_tmp`, is set only when the node it
unlinked was the first. For any other node the search starts at `NULL` and ends there, the list is
taken for empty, and `*source` becomes a list of that one node: all others are lost
(`linklistReidx_inner`).

A list is well formed here if its nodes have link words that do not overlap, wherever they lie. The
live nodes of a pool are (`Nodes.wellFormed`).
-/

namespace Rtbus.Pool

open Rtbus.Tiling

/-- The second half of `linklist_reidx`: `cur` goes behind the last node that `first` leads to. The
heap and the new value of `*source`. -/
def relink (h : Heap) (m : Memory) (source first cur : Nat) : Option (Heap × Nat) :=
  (lastNode m chainMax first).map fun last =>
    if last = null then ({ h with mem := m.store32 cur null }, cur)
    else ({ h with mem := (m.store32 last cur).store32 cur null }, source)

/-- `linklist_reidx`: the heap and the new value of `*source`. The pool is not asked for anything. -/
def linklistReidx (h : Heap) (_poolId source target : Nat) : Option (Heap × Nat) :=
  match findNode h.mem target chainMax null source with
  | none => none
  | some none => some (h, source)
  | some (some (pre, cur)) =>
    let next := h.mem.load32 cur
    if pre ≠ null then
      -- `last_tmp` is not set on this path and keeps its `NULL`
      relink h ((h.mem.store32 pre next).store32 cur null) source null cur
    else if next ≠ null then relink h h.mem next next cur
    else relink h h.mem null null cur

/-- A list whose nodes have link words of their own. -/
structure WellFormed (m : Memory) (source : Nat) (as : List Nat) : Prop where
  linked : Linked m source as
  apart : as.Pairwise fun a b => a + linkSize ≤ b ∨ b + linkSize ≤ a
  range : ∀ a ∈ as, a + linkSize ≤ 2 ^ 32

/-- The list `as` after the node `target` has been moved to its end. A list without that node is as
it was. -/
structure Reindexed (m : Memory) (source : Nat) (as : List Nat) (target : Nat) (m' : Memory)
    (source' : Nat) : Prop where
  absent : target ∉ as → m' = m ∧ source' = source
  moved : target ∈ as → Linked m' source' (as.erase target ++ [target])

/-! ## Well-formed lists -/

namespace WellFormed

variable {m : Memory} {source : Nat} {as : List Nat}

theorem nodup (w : WellFormed m source as) : as.Nodup := by
  refine List.nodup_iff_pairwise_ne.mpr (w.apart.imp fun {a b} h => ?_)
  change a + 4 ≤ b ∨ b + 4 ≤ a at h
  omega

theorem lt (w : WellFormed m source as) {a : Nat} (ha : a ∈ as) : a < 2 ^ 32 := by
  have h := w.range a ha
  change a + 4 ≤ 2 ^ 32 at h
  omega

/-- A list is shorter than the scans are long. -/
theorem length_lt (w : WellFormed m source as) : as.length < chainMax := by
  have hsub : as ⊆ List.range' 1 (2 ^ 32 - 1) := by
    intro a ha
    have hlt := w.lt ha
    have hne := w.linked.ne_zero a ha
    rw [List.mem_range'_1]
    omega
  have hle := length_le_of_nodup_subset w.nodup hsub
  rw [List.length_range'] at hle
  unfold chainMax
  omega

/-- A link word outlives a store into that of another node. -/
theorem load32_store32 (w : WellFormed m source as) {a b : Nat} (ha : a ∈ as) (hb : b ∈ as)
    (hne : a ≠ b) (m' : Memory) (v : Nat) : (m'.store32 a v).load32 b = m'.load32 b := by
  have : Std.Symm fun a b : Nat => a + linkSize ≤ b ∨ b + linkSize ≤ a := ⟨fun _ _ h => h.symm⟩
  refine (Memory.store32_agreeOff m' a v).load32_eq ?_
  exact w.apart.forall hb ha hne.symm

end WellFormed

/-- The live nodes of a pool have link words of their own. -/
theorem Nodes.wellFormed {h : Heap} {index source : Nat} {bs : List Block} {as : List Nat}
    (v : Valid h index bs) (n : Nodes h index bs source as) : WellFormed h.mem source as := by
  refine ⟨n.linked, ?_, fun a ha => ?_⟩
  · refine (List.nodup_iff_pairwise_ne.mp n.nodup).imp_of_mem fun {a b} ha hb hne => ?_
    obtain ⟨s, hs⟩ := n.live a ha
    obtain ⟨t, ht⟩ := n.live b hb
    have hs4 := v.live_size hs
    have ht4 := v.live_size ht
    change 4 ≤ s at hs4
    change 4 ≤ t at ht4
    show a + 4 ≤ b ∨ b + 4 ≤ a
    exact (live_apart hs ht hne).imp (fun hlt => by change a + s ≤ b at hlt; omega)
      fun hlt => by change b + t ≤ a at hlt; omega
  · obtain ⟨s, hs⟩ := n.live a ha
    have hs4 := v.live_size hs
    have hrange := (v.live_range hs).2
    have hlt := v.highWater_lt
    change 4 ≤ s at hs4
    change a + s ≤ _ at hrange
    show a + 4 ≤ 2 ^ 32
    omega

/-! ## The three cases -/

theorem findNode_absent {m : Memory} {a fuel pre t : Nat} {as : List Nat} (linked : Linked m a as)
    (absent : t ∉ as) (enough : as.length < fuel) : findNode m t fuel pre a = some none := by
  induction as generalizing a fuel pre with
  | nil =>
    obtain ⟨fuel, rfl⟩ : ∃ k, fuel = k + 1 := ⟨fuel - 1, by simp at enough; omega⟩
    cases linked
    exact if_pos rfl
  | cons x xs ih =>
    obtain ⟨fuel, rfl⟩ : ∃ k, fuel = k + 1 := ⟨fuel - 1, by simp at enough; omega⟩
    obtain ⟨rfl, hx, rest⟩ := linked
    have hne : a ≠ t := fun h => absent (h ▸ List.mem_cons_self ..)
    rw [findNode, if_neg hx, if_neg hne]
    exact ih rest (fun h => absent (List.mem_cons_of_mem _ h)) (by simpa using enough)

section Cases

variable {h : Heap} {m : Memory} {source target : Nat}

theorem relink_null (source cur : Nat) :
    relink h m source null cur = some ({ h with mem := m.store32 cur null }, cur) := by
  have hscan : lastNode m chainMax null = some null :=
    @lastNode_spec _ _ _ [] rfl (Nat.two_pow_pos 32)
  simp only [relink, hscan, Option.map_some, ↓reduceIte]

theorem relink_snoc {first last : Nat} {init : List Nat} (linked : Linked m first (init ++ [last]))
    (enough : (init ++ [last]).length < chainMax) (source cur : Nat) :
    relink h m source first cur =
      some ({ h with mem := (m.store32 last cur).store32 cur null }, source) := by
  have hlast : last ≠ null := linked.ne_zero last (by simp)
  have hscan := lastNode_spec linked enough
  rw [List.getLast?_concat, Option.getD_some] at hscan
  simp only [relink, hscan, Option.map_some, if_neg hlast]

/-- A node that is not there. -/
theorem linklistReidx_absent {as : List Nat} (w : WellFormed h.mem source as) (poolId : Nat)
    (absent : target ∉ as) : linklistReidx h poolId source target = some (h, source) := by
  simp only [linklistReidx, findNode_absent w.linked absent w.length_lt]

/-- The first node is moved behind the others. -/
theorem linklistReidx_first {post : List Nat} (w : WellFormed h.mem source (target :: post))
    (poolId : Nat) : ∃ h' source', linklistReidx h poolId source target = some (h', source') ∧
      Linked h'.mem source' (post ++ [target]) := by
  have hlen : post.length + 1 < chainMax := w.length_lt
  have hlt := w.lt (List.mem_cons_self ..)
  have hfresh := (List.nodup_cons.mp w.nodup).1
  have hfind : findNode h.mem target chainMax null source = some (some (null, target)) :=
    @findNode_spec _ _ _ _ _ [] _ w.linked (by simp) (Nat.zero_lt_of_lt hlen)
  obtain ⟨hsource, hne, rest⟩ := w.linked
  simp only [linklistReidx, hfind, ne_eq, not_true_eq_false, ↓reduceIte]
  rcases List.eq_nil_or_concat post with rfl | ⟨init, last, rfl⟩
  · -- it is the only one
    have hend : h.mem.load32 target = null := rest
    rw [if_neg (not_not_intro hend), relink_null]
    exact ⟨_, _, rfl, rfl, hne, Memory.load32_store32 _ target (Nat.two_pow_pos 32)⟩
  · rw [List.concat_eq_append] at *
    have hnext : h.mem.load32 target ≠ null := fun h0 =>
      absurd ((Linked.eq_zero_iff rest).mp h0) (by simp)
    rw [if_pos hnext, relink_snoc rest (Nat.lt_of_succ_lt hlen)]
    refine ⟨_, _, rfl, seg_append.mpr ⟨target, ?_, rfl, hne, ?_⟩⟩
    · have hlast : last ∉ init := by
        have hnodup := (List.nodup_cons.mp w.nodup).2
        exact fun hin => (List.nodup_append.mp hnodup).2.2 last hin last (by simp) rfl
      have hout : ∀ a ∈ init ++ [last], target ≠ a := fun a ha heq => hfresh (heq ▸ ha)
      refine rest.redirect (fun a ha => ?_) ?_
      · rw [w.load32_store32 (a := target) (b := a) (by simp) (by simp [ha]) (hout a (by simp [ha])),
          w.load32_store32 (a := last) (b := a) (by simp) (by simp [ha]) fun heq => hlast (heq ▸ ha)]
      · rw [w.load32_store32 (a := target) (b := last) (by simp) (by simp) (hout last (by simp))]
        exact Memory.load32_store32 _ last hlt
    · exact Memory.load32_store32 _ target (Nat.two_pow_pos 32)

/-- Any other node takes the place of the whole list. -/
theorem linklistReidx_inner {pre post : List Nat}
    (w : WellFormed h.mem source (pre ++ target :: post)) (inner : pre ≠ []) (poolId : Nat) :
    ∃ h', linklistReidx h poolId source target = some (h', target) ∧
      Linked h'.mem target [target] := by
  have hlen := w.length_lt
  rw [List.length_append] at hlen
  have hnodup := w.nodup
  rw [List.nodup_append] at hnodup
  have hfind := @findNode_spec _ _ _ null _ _ _ w.linked
    (fun hin => hnodup.2.2 target hin target (by simp) rfl) (Nat.lt_of_add_right_lt hlen)
  rw [List.getLast?_eq_some_getLast inner, Option.getD_some] at hfind
  have hprev : pre.getLast inner ≠ null := w.linked.ne_zero _ (by simp)
  simp only [linklistReidx, hfind, if_pos hprev, relink_null]
  refine ⟨_, rfl, rfl, w.linked.ne_zero target (by simp), ?_⟩
  exact Memory.load32_store32 _ target (Nat.two_pow_pos 32)

end Cases

/-- Reindexing does to a well-formed list what it is to do exactly if the target is not in the list
or is its first node. -/
theorem linklistReidx_reindexes_iff (h : Heap) (poolId source target : Nat) (as : List Nat)
    (w : WellFormed h.mem source as) :
    (∃ h' source', linklistReidx h poolId source target = some (h', source') ∧
        Reindexed h.mem source as target h'.mem source') ↔
      (target ∈ as → as.head? = some target) := by
  by_cases present : target ∈ as
  · obtain ⟨pre, post, rfl⟩ := List.append_of_mem present
    cases pre with
    | nil =>
      obtain ⟨h', source', hres, moved⟩ := linklistReidx_first w poolId
      refine ⟨fun _ _ => rfl, fun _ => ⟨h', source', hres, fun absent => absurd present absent, ?_⟩⟩
      intro _
      rw [List.nil_append, List.erase_cons_head]
      exact moved
    | cons p pre =>
      have hp : p ≠ target := by
        rintro rfl
        exact (List.nodup_cons.mp w.nodup).1 (by simp)
      obtain ⟨h', hres, alone⟩ := linklistReidx_inner w (List.cons_ne_nil p pre) poolId
      constructor
      · rintro ⟨h₁, source₁, hres₁, _, moved⟩ _
        obtain ⟨rfl, rfl⟩ := Prod.mk.inj (Option.some.inj (hres.symm.trans hres₁))
        -- the list holds one node, and is to hold `p` as well
        have hlists := (moved present).unique alone
        rw [List.cons_append, List.erase_cons_tail (by simpa using hp)] at hlists
        simp at hlists
      · intro first
        exact absurd (Option.some.inj (first present)) hp
  · refine ⟨fun _ mem => absurd mem present, fun _ => ?_⟩
    exact ⟨h, source, linklistReidx_absent w poolId present, fun _ => ⟨rfl, rfl⟩,
      fun mem => absurd mem present⟩

/-- A list of two nodes, at addresses 16 and 32. -/
def twoNodes : Heap :=
  { mem := Memory.store32 (fun _ => 0) 16 32, pools := fun _ => PoolVars.zero }

theorem twoNodes_wellFormed : WellFormed twoNodes.mem 16 [16, 32] :=
  ⟨⟨rfl, by decide, rfl, by decide, rfl⟩, by decide, by decide⟩

/-- The first of two nodes is moved behind the other. -/
theorem first_of_two_reindexed :
    ∃ h' source', linklistReidx twoNodes 0 16 16 = some (h', source') ∧
      Reindexed twoNodes.mem 16 [16, 32] 16 h'.mem source' :=
  (linklistReidx_reindexes_iff twoNodes 0 16 16 [16, 32] twoNodes_wellFormed).mpr fun _ => rfl

/-- Moving the second of two nodes, which is the last already, loses the first. -/
theorem second_of_two_loses_first :
    ¬ ∀ (h : Heap) (poolId source target : Nat) (as : List Nat), WellFormed h.mem source as →
      ∃ h' source', linklistReidx h poolId source target = some (h', source') ∧
        Reindexed h.mem source as target h'.mem source' := by
  intro always
  obtain ⟨h₁, source₁, hres₁, _, moved⟩ := always twoNodes 0 16 32 [16, 32] twoNodes_wellFormed
  obtain ⟨h', hres, alone⟩ := @linklistReidx_inner twoNodes 16 32 [16] [] twoNodes_wellFormed
    (by simp) 0
  obtain ⟨rfl, rfl⟩ := Prod.mk.inj (Option.some.inj (hres.symm.trans hres₁))
  have hlists := (moved (by simp)).unique alone
  simp at hlists

end Rtbus.Pool
