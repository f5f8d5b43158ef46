import Rtbus.Base.Links
import Rtbus.Pool.Spec

/-!
# The linked list

`linklist.c` keeps singly linked lists whose nodes are blocks of a pool: the first word of a node is
`next`, and what follows belongs to the caller. `source` is the variable that holds the address of
the first node.

Both functions follow `next` words, so like the scans of the allocator they are bounded by the
number of addresses, and `none` is a scan that does not end. The specifications say what happens to
a list of live nodes: `linklist_new` puts a new node at its end, `linklist_remove` takes one node
out, and all else in live payloads stays, except the link words of this list's own nodes.
-/

namespace Rtbus.Pool

/-- `sizeof(linklist_t)`. -/
abbrev linkSize : Nat := 4

/-- The scan of `linklist_new` for the last node; `NULL` for an empty list. -/
def lastNode (m : Memory) : Nat → Nat → Option Nat
  | 0, _ => none
  | fuel + 1, last =>
    if last = null ∨ m.load32 last = null then some last else lastNode m fuel (m.load32 last)

/-- `linklist_new`: the heap, the new value of `*source`, and the new node or `NULL`. -/
def linklistNew (h : Heap) (poolId source newDatalen : Nat) : Option (Heap × Nat × Nat) :=
  if newDatalen < linkSize then some (h, source, null)
  else
    match lastNode h.mem chainMax source with
    | none => none
    | some last =>
      match bmalloc h poolId newDatalen with
      | none => none
      | some (h, new) =>
        if new = null then some (h, source, null)
        else
          let m := h.mem.store32 new null
          if last = null then some ({ h with mem := m }, new, new)
          else some ({ h with mem := m.store32 last new }, source, new)

/-- The scan of `linklist_remove`: the target and the node before it, `NULL` if it is the first. -/
def findNode (m : Memory) (target : Nat) : Nat → Nat → Nat → Option (Option (Nat × Nat))
  | 0, _, _ => none
  | fuel + 1, pre, cur =>
    if cur = null then some none
    else if cur = target then some (some (pre, cur))
    else findNode m target fuel cur (m.load32 cur)

/-- `linklist_remove`: the heap and the new value of `*source`. -/
def linklistRemove (h : Heap) (poolId source target : Nat) : Option (Heap × Nat) :=
  match findNode h.mem target chainMax null source with
  | none => none
  | some none => some (h, source)
  | some (some (pre, cur)) =>
    let next := h.mem.load32 cur
    let unlinked : Memory × Nat :=
      if pre ≠ null then ((h.mem.store32 pre next).store32 cur null, source) else (h.mem, next)
    match bfree { h with mem := unlinked.1 } poolId cur with
    | none => none
    | some h => some (h, unlinked.2)

/-! ## The scans -/

/-- The first scan finds the last node. -/
theorem lastNode_spec {m : Memory} {a fuel : Nat} {as : List Nat} (linked : Linked m a as)
    (enough : as.length < fuel) : lastNode m fuel a = some (as.getLast?.getD null) := by
  induction as generalizing a fuel with
  | nil =>
    obtain ⟨fuel, rfl⟩ : ∃ k, fuel = k + 1 := ⟨fuel - 1, by simp at enough; omega⟩
    cases linked
    simp only [lastNode, null, true_or, ↓reduceIte, List.getLast?_nil, Option.getD_none]
  | cons x xs ih =>
    obtain ⟨fuel, rfl⟩ : ∃ k, fuel = k + 1 := ⟨fuel - 1, by simp at enough; omega⟩
    obtain ⟨rfl, hx, rest⟩ := linked
    cases xs with
    | nil =>
      have hend : m.load32 a = 0 := rest
      simp only [lastNode, null, hend, or_true, ↓reduceIte, List.getLast?_singleton,
        Option.getD_some]
    | cons y ys =>
      have hgo : ¬ (a = null ∨ m.load32 a = null) := by
        rintro (h | h)
        · exact hx h
        · exact rest.2.1 (rest.1 ▸ h)
      rw [lastNode, if_neg hgo, ih rest (by simpa using enough), List.getLast?_cons_cons]

/-- The second finds the target and the node before it. -/
theorem findNode_spec {m : Memory} {a fuel pre t : Nat} {xs ys : List Nat}
    (linked : Linked m a (xs ++ t :: ys)) (fresh : t ∉ xs) (enough : xs.length < fuel) :
    findNode m t fuel pre a = some (some ((xs.getLast?).getD pre, t)) := by
  induction xs generalizing a fuel pre with
  | nil =>
    obtain ⟨fuel, rfl⟩ : ∃ k, fuel = k + 1 := ⟨fuel - 1, by simp at enough; omega⟩
    obtain ⟨rfl, ht, _⟩ := linked
    rw [findNode, if_neg ht, if_pos rfl]
    rfl
  | cons x xs ih =>
    obtain ⟨fuel, rfl⟩ : ∃ k, fuel = k + 1 := ⟨fuel - 1, by simp at enough; omega⟩
    obtain ⟨rfl, hx, rest⟩ := linked
    have hne : a ≠ t := fun h => fresh (h ▸ List.mem_cons_self ..)
    rw [findNode, if_neg hx, if_neg hne,
      ih rest (fun h => fresh (List.mem_cons_of_mem _ h)) (by simpa using enough)]
    cases xs with
    | nil => rfl
    | cons y ys => rw [List.getLast?_cons_cons, List.getLast?_eq_some_getLast (by simp)]; rfl

/-! ## Lists of live nodes -/

open Rtbus.Tiling

/-- A list of distinct nodes, each of which is a live payload. -/
structure Nodes (h : Heap) (index : Nat) (bs : List Block) (source : Nat) (as : List Nat) :
    Prop where
  linked : Linked h.mem source as
  live : ∀ a ∈ as, ∃ size, (a, size) ∈ h.live index bs
  nodup : as.Nodup

/-- The bytes of live payloads are the same in two memories, the link words of the nodes `as`
excepted. -/
def KeptButLinks (m m' : Memory) (ps : List (Nat × Nat)) (as : List Nat) : Prop :=
  ∀ p ∈ ps, ∀ x, p.1 ≤ x → x < p.1 + p.2 → (p.1 + linkSize ≤ x ∨ p.1 ∉ as) → m' x = m x

/-- A list of live nodes is short enough for both scans. -/
theorem Nodes.length_lt {h : Heap} {index source : Nat} {bs : List Block} {as : List Nat}
    (n : Nodes h index bs source as) (v : Valid h index bs) : as.length < chainMax := by
  have hle : as.length ≤ ((h.live index bs).map Prod.fst).length := by
    refine length_le_of_nodup_subset n.nodup fun a ha => ?_
    obtain ⟨size, hmem⟩ := n.live a ha
    exact List.mem_map.mpr ⟨_, hmem, rfl⟩
  rw [List.length_map] at hle
  exact Nat.lt_of_le_of_lt hle v.live_length_lt

/-- The link word of a live payload in a memory that kept the payload's bytes. -/
theorem Kept.load32_eq {m m' : Memory} {ps : List (Nat × Nat)} (h : Kept m m' ps) {a size : Nat}
    (ha : (a, size) ∈ ps) (four : 4 ≤ size) : m'.load32 a = m.load32 a :=
  Memory.load32_congr fun x lo hi => h _ ha x lo (by show x < a + size; omega)

section KeptButLinks

variable {m m' : Memory} {ps : List (Nat × Nat)} {as : List Nat}

/-- Bytes that are all kept are kept but for any links. -/
theorem Kept.butLinks (k : Kept m m' ps) : KeptButLinks m m' ps as :=
  fun p hp x lo hi _ => k p hp x lo hi

/-- Where none of the payloads is one of the nodes, every byte is kept. -/
theorem KeptButLinks.kept (k : KeptButLinks m m' ps as) (apart : ∀ p ∈ ps, p.1 ∉ as) :
    Kept m m' ps :=
  fun p hp x lo hi => k p hp x lo hi (.inr (apart p hp))

/-- Two changes of the same links. -/
theorem KeptButLinks.trans {m'' : Memory} (k : KeptButLinks m m' ps as)
    (k' : KeptButLinks m' m'' ps as) : KeptButLinks m m'' ps as :=
  fun p hp x lo hi out => (k' p hp x lo hi out).trans (k p hp x lo hi out)

/-- Fewer payloads are kept, and more link words are excepted. -/
theorem KeptButLinks.mono {ps' : List (Nat × Nat)} {as' : List Nat} (k : KeptButLinks m m' ps as)
    (fewer : ∀ p ∈ ps', p ∈ ps) (more : ∀ a ∈ as, a ∈ as') : KeptButLinks m m' ps' as' :=
  fun p hp x lo hi out => k p (fewer p hp) x lo hi (out.imp id fun h h' => h (more _ h'))

/-- The link words of the other payloads are the same. -/
theorem KeptButLinks.load32_eq (k : KeptButLinks m m' ps as) {a size : Nat} (ha : (a, size) ∈ ps)
    (four : 4 ≤ size) (apart : a ∉ as) : m'.load32 a = m.load32 a :=
  Memory.load32_congr fun x lo hi => k _ ha x lo (by show x < a + size; omega) (.inr apart)

end KeptButLinks

section Split

variable {h : Heap} {index t size : Nat} {bs : List Block} {l₁ l₂ : List (Nat × Nat)}

/-- No other live payload has the address of this one. -/
theorem live_ne_of_split (hlive : h.live index bs = l₁ ++ (t, size) :: l₂) :
    ∀ q ∈ l₁ ++ l₂, q.1 ≠ t := by
  intro q hq heq
  have nodup := payloads_nodup (h.pools index).heapOfMemory bs
  change ((h.live index bs).map Prod.fst).Nodup at nodup
  rw [hlive] at nodup
  exact (List.nodup_cons.mp ((List.perm_middle.map Prod.fst).nodup_iff.mp nodup)).1
    (heq ▸ List.mem_map.mpr ⟨q, hq, rfl⟩)

/-- The other payloads are live. -/
theorem mem_live_of_split (hlive : h.live index bs = l₁ ++ (t, size) :: l₂) :
    ∀ q ∈ l₁ ++ l₂, q ∈ h.live index bs := by
  intro q hq
  rw [hlive]
  exact List.perm_middle.mem_iff.mpr (List.mem_cons_of_mem _ hq)

end Split

/-- Storing a link word into a live payload. -/
theorem store_link {h : Heap} {index : Nat} {bs : List Block} (v : Valid h index bs) {a size : Nat}
    (ha : (a, size) ∈ h.live index bs) (w : Nat) :
    Valid { h with mem := h.mem.store32 a w } index bs ∧
      KeptButLinks h.mem (h.mem.store32 a w) (h.live index bs) [a] := by
  have hsize := v.live_size ha
  have agree := Memory.store32_agreeOff h.mem a w
  refine ⟨v.store ha (agree.widen (Nat.le_refl _) (Nat.add_le_add_left hsize a)),
    fun p hp x lo hi out => agree x ?_⟩
  by_cases hne : p.1 = a
  · rcases out with out | out
    · exact .inr (by rw [← hne]; exact out)
    · exact absurd (List.mem_singleton.mpr hne) out
  · rcases live_apart hp ha hne with hlt | hlt
    · exact .inl (by omega)
    · exact .inr (by change a + size ≤ p.1 at hlt; change 4 ≤ size at hsize; omega)

/-- A byte that the pool does not own is in none of its live payloads. -/
theorem not_owned_apart {h : Heap} {index x : Nat} {bs : List Block} (v : Valid h index bs)
    (out : ¬ (h.pools index).Owns x) {q : Nat × Nat} (hq : q ∈ h.live index bs) :
    x < q.1 ∨ q.1 + q.2 ≤ x := by
  by_contra hin
  exact out (v.owns_live hq (by omega) (by omega))

/-- Storing a link word into a live payload changes nothing outside the pool. -/
theorem Confined.store_link {h h₁ : Heap} {index a size : Nat} {bs : List Block}
    (c : Confined h h₁ index) (v : Valid h₁ index bs) (ha : (a, size) ∈ h₁.live index bs) (w : Nat) :
    Confined h { h₁ with mem := h₁.mem.store32 a w } index := by
  refine ⟨c.pools, fun x hx => ?_⟩
  have hapart := not_owned_apart v (c.owns_iff.not.mpr hx) ha
  have hsize := v.live_size ha
  dsimp only at hapart hsize
  rw [← c.mem x hx]
  exact Memory.store32_agreeOff h₁.mem a w x (by omega)

/-- Clearing the link word of a payload keeps the bytes of the others. -/
theorem clear_link {h : Heap} {index p size : Nat} {bs : List Block} {l₁ l₂ : List (Nat × Nat)}
    (v : Valid h index bs) (hlive : h.live index bs = l₁ ++ (p, size) :: l₂) :
    Valid { h with mem := h.mem.store32 p null } index bs ∧
      Kept h.mem (h.mem.store32 p null) (l₁ ++ l₂) := by
  have hp : (p, size) ∈ h.live index bs := by
    rw [hlive]
    simp
  obtain ⟨v', kept⟩ := store_link v hp null
  refine ⟨v', (kept.mono (mem_live_of_split hlive) fun _ => id).kept fun q hq hin => ?_⟩
  exact live_ne_of_split hlive q hq (List.mem_singleton.mp hin)

/-- A node with a cleared link word goes behind the last node of a list. -/
theorem link_behind {h : Heap} {index source last p size : Nat} {bs : List Block}
    {init : List Nat} (v : Valid h index bs) (n : Nodes h index bs source (init ++ [last]))
    (hp : (p, size) ∈ h.live index bs) (nonzero : p ≠ null) (fresh : p ∉ init ++ [last])
    (cleared : h.mem.load32 p = 0) :
    Linked (h.mem.store32 last p) source (init ++ [last] ++ [p]) := by
  obtain ⟨t, ht⟩ := n.live last (by simp)
  obtain ⟨_, kept⟩ := store_link v ht p
  have hdistinct : last ∉ init := by
    have := n.nodup
    rw [List.nodup_append] at this
    exact fun hin => this.2.2 last hin last (by simp) rfl
  have hlt : p < 2 ^ 32 := by
    have h1 := (v.live_range hp).2
    have h2 := v.highWater_lt
    dsimp only at h1
    omega
  refine seg_append.mpr ⟨p, ?_, rfl, nonzero, ?_⟩
  · refine n.linked.redirect (fun a ha => ?_) (Memory.load32_store32 _ last hlt)
    obtain ⟨s, hs⟩ := n.live a (by simp [ha])
    exact kept.load32_eq hs (v.live_size hs) fun hin => hdistinct (List.mem_singleton.mp hin ▸ ha)
  · show Memory.load32 (Memory.store32 _ last p) p = 0
    rw [kept.load32_eq hp (v.live_size hp) fun hin => fresh (by simp [List.mem_singleton.mp hin]),
      cleared]

/-- `linklist_new` on a list of live nodes: nothing, or one more node at the end. -/
theorem linklistNew_spec {h : Heap} {index source : Nat} {bs : List Block} {as : List Nat}
    (v : Valid h index bs) (n : Nodes h index bs source as) (len : Nat) (four : linkSize ≤ len)
    (small : NoCarry len) :
    ∃ h' source' p bs', linklistNew h index source len = some (h', source', p) ∧
      Valid h' index bs' ∧ Confined h h' index ∧
      ((h.pools index).active = true →
        place ((h.pools index).topOfHeap - (h.pools index).heapOfMemory) ((len + 3) / 4 * 4) bs =
          if p = null then none else some bs') ∧
      ((p = null ∧ source' = source ∧ bs' = bs ∧ h'.mem = h.mem) ∨
        (p ≠ null ∧ ∃ l₁ l₂ size, len ≤ size ∧ h.live index bs = l₁ ++ l₂ ∧
          h'.live index bs' = l₁ ++ (p, size) :: l₂ ∧ Linked h'.mem source' (as ++ [p]) ∧
          KeptButLinks h.mem h'.mem (l₁ ++ l₂) as)) := by
  obtain ⟨h₁, p, bs', hres, ⟨v₁, conf, hcase⟩, hplace⟩ := bmalloc_spec v small
  have hplace := fun active => hplace active (show len ≠ 0 by change 4 ≤ len at four; omega)
  unfold linklistNew
  rw [if_neg (Nat.not_lt.mpr four), lastNode_spec n.linked (n.length_lt v)]
  simp only [hres]
  rcases hcase with ⟨rfl, rfl, hmem⟩ | ⟨hp, l₁, l₂, size, hsize, hlive, hlive', hkept⟩
  · exact ⟨h₁, source, null, bs', if_pos rfl, v₁, conf, hplace, .inl ⟨rfl, rfl, rfl, hmem⟩⟩
  · rw [if_neg hp]
    have hnew : (p, size) ∈ h₁.live index bs' := by
      rw [hlive']
      simp
    have hold : ∀ q ∈ h.live index bs, q ∈ h₁.live index bs' := fun q hq =>
      mem_live_of_split hlive' q (hlive ▸ hq)
    obtain ⟨v₂, kept₂⟩ := clear_link v₁ hlive'
    have hkept₂ : Kept h.mem (h₁.mem.store32 p null) (l₁ ++ l₂) := fun q hq x lo hi =>
      (kept₂ q hq x lo hi).trans (hkept q hq x lo hi)
    have hlinked : Linked (h₁.mem.store32 p null) source as := by
      refine n.linked.congr fun a ha => ?_
      obtain ⟨t, ht⟩ := n.live a ha
      exact hkept₂.load32_eq (hlive ▸ ht) (v.live_size ht)
    have hcleared : (h₁.mem.store32 p null).load32 p = 0 :=
      Memory.load32_store32 h₁.mem p (v := 0) (by decide)
    have conf₂ := conf.store_link v₁ hnew null
    cases hlast : as.getLast? with
    | none =>
      -- the list was empty
      obtain rfl := List.getLast?_eq_none_iff.mp hlast
      exact ⟨_, _, _, bs', if_pos rfl, v₂, conf₂, hplace,
        .inr ⟨hp, l₁, l₂, size, hsize, hlive, hlive', ⟨rfl, hp, hcleared⟩, hkept₂.butLinks⟩⟩
    | some last =>
      obtain ⟨init, rfl⟩ := List.getLast?_eq_some_iff.mp hlast
      obtain ⟨t, ht⟩ := n.live last (by simp)
      have nodes₂ : Nodes { h₁ with mem := h₁.mem.store32 p null } index bs' source
          (init ++ [last]) :=
        ⟨hlinked, fun a ha => (n.live a ha).imp fun _ hs => hold _ hs, n.nodup⟩
      have fresh : p ∉ init ++ [last] := by
        intro hin
        obtain ⟨s, hs⟩ := n.live p hin
        exact live_ne_of_split hlive' _ (hlive ▸ hs) rfl
      obtain ⟨v₃, kept₃⟩ := store_link v₂ (hold _ ht) p
      refine ⟨_, _, _, bs', if_neg (n.linked.ne_zero last (by simp)), v₃,
        conf₂.store_link v₂ (hold _ ht) p, hplace,
        .inr ⟨hp, l₁, l₂, size, hsize, hlive, hlive', link_behind v₂ nodes₂ hnew hp fresh hcleared,
          ?_⟩⟩
      exact hkept₂.butLinks.trans (kept₃.mono (mem_live_of_split hlive') (by simp))

/-- Freeing a node that has been taken out of its list leaves the list as it is. -/
theorem free_unlinked {h : Heap} {index t tsize source : Nat} {bs : List Block} {as pre : List Nat}
    {m : Memory} (v : Valid { h with mem := m } index bs) (ht : (t, tsize) ∈ h.live index bs)
    (kept : KeptButLinks h.mem m (h.live index bs) (t :: pre)) (linked : Linked m source as)
    (live : ∀ a ∈ as, a ≠ t ∧ ∃ size, (a, size) ∈ h.live index bs)
    (conf : Confined h { h with mem := m } index) :
    ∃ h' bs', bfree { h with mem := m } index t = some h' ∧ Valid h' index bs' ∧
      Confined h h' index ∧ ∃ l₁ size l₂, h.live index bs = l₁ ++ (t, size) :: l₂ ∧
        h'.live index bs' = l₁ ++ l₂ ∧ Linked h'.mem source as ∧
        KeptButLinks h.mem h'.mem (l₁ ++ l₂) pre := by
  obtain ⟨h', bs', hres, v', conf', hcase⟩ := bfree_spec v t
  rcases hcase with ⟨_, _, hdead⟩ | ⟨l₁, size, l₂, hlive, hlive', hkept⟩
  · exact absurd rfl (hdead _ ht)
  · change h.live index bs = _ at hlive
    have hne := live_ne_of_split hlive
    refine ⟨h', bs', hres, v', ⟨conf'.pools, fun x hx => (conf'.mem x hx).trans (conf.mem x hx)⟩,
      l₁, size, l₂, hlive, hlive', ?_, fun q hq x lo hi out => ?_⟩
    · refine linked.congr fun a ha => ?_
      obtain ⟨hat, s, hs⟩ := live a ha
      have hfour := v.live_size hs
      rw [hlive] at hs
      rcases List.mem_cons.mp (List.perm_middle.mem_iff.mp hs) with heq | hs
      · exact absurd (congrArg Prod.fst heq) hat
      · exact hkept.load32_eq hs hfour
    · rw [hkept q hq x lo hi]
      refine kept q (mem_live_of_split hlive q hq) x lo hi (out.imp id fun h h' => ?_)
      rcases List.mem_cons.mp h' with h' | h'
      · exact hne q hq h'
      · exact h h'

/-- Unlinking a node that has another before it: that one's link word skips it, and its own is
cleared. -/
theorem unlink_behind {h : Heap} {index source l t : Nat} {bs : List Block} {init post : List Nat}
    (v : Valid h index bs) (n : Nodes h index bs source (init ++ [l] ++ t :: post)) :
    let m := (h.mem.store32 l (h.mem.load32 t)).store32 t null
    Valid { h with mem := m } index bs ∧ Confined h { h with mem := m } index ∧
      KeptButLinks h.mem m (h.live index bs) (t :: (init ++ [l])) ∧
      Linked m source (init ++ [l] ++ post) := by
  obtain ⟨ls, hl⟩ := n.live l (by simp)
  obtain ⟨ts, ht⟩ := n.live t (by simp)
  have hdis := n.nodup
  rw [List.nodup_append, List.nodup_append] at hdis
  obtain ⟨⟨_, _, hinit⟩, hpost, hcross⟩ := hdis
  have htpost := (List.nodup_cons.mp hpost).1
  have hlt : l ≠ t := hcross l (by simp) t (List.mem_cons_self ..)
  obtain ⟨v₁, kept₁⟩ := store_link v hl (h.mem.load32 t)
  obtain ⟨v₂, kept₂⟩ := store_link v₁ ht null
  have kept : KeptButLinks h.mem ((h.mem.store32 l (h.mem.load32 t)).store32 t null)
      (h.live index bs) [l, t] :=
    (kept₁.mono (fun _ => id) (by simp)).trans (kept₂.mono (fun _ => id) (by simp))
  have hskip : ((h.mem.store32 l (h.mem.load32 t)).store32 t null).load32 l = h.mem.load32 t := by
    rw [kept₂.load32_eq hl (v.live_size hl) (by simpa using hlt)]
    exact Memory.load32_store32 h.mem l (Memory.load32_lt h.mem t)
  obtain ⟨_, hpre, _, _, hrest⟩ := seg_append.mp n.linked
  have conf := ((Confined.refl h index).store_link v hl (h.mem.load32 t)).store_link v₁ ht null
  refine ⟨v₂, conf, kept.mono (fun _ => id) (by simp), seg_append.mpr ⟨h.mem.load32 t, ?_, ?_⟩⟩
  · refine hpre.redirect (fun a ha => ?_) hskip
    obtain ⟨s, hs⟩ := n.live a (by simp [ha])
    have hal : a ≠ l := hinit a ha l (by simp)
    have hat : a ≠ t := hcross a (by simp [ha]) t (List.mem_cons_self ..)
    exact kept.load32_eq hs (v.live_size hs) (by simp [hal, hat])
  · refine hrest.congr fun a ha => ?_
    obtain ⟨s, hs⟩ := n.live a (by simp [ha])
    have hla : l ≠ a := hcross l (by simp) a (List.mem_cons_of_mem _ ha)
    have hat : a ≠ t := fun h => htpost (h ▸ ha)
    exact kept.load32_eq hs (v.live_size hs) (by simp [hla.symm, hat])

/-- `linklist_remove` of a node of a list of live nodes: that node is freed, the others stay. -/
theorem linklistRemove_spec {h : Heap} {index source t : Nat} {bs : List Block} {pre post : List Nat}
    (v : Valid h index bs) (n : Nodes h index bs source (pre ++ t :: post)) :
    ∃ h' source' bs', linklistRemove h index source t = some (h', source') ∧
      Valid h' index bs' ∧ Confined h h' index ∧
      ∃ l₁ size l₂, h.live index bs = l₁ ++ (t, size) :: l₂ ∧ h'.live index bs' = l₁ ++ l₂ ∧
        Linked h'.mem source' (pre ++ post) ∧ KeptButLinks h.mem h'.mem (l₁ ++ l₂) pre := by
  have hdis := n.nodup
  rw [List.nodup_append, List.nodup_cons] at hdis
  obtain ⟨_, ⟨htpost, _⟩, hcross⟩ := hdis
  have htpre : t ∉ pre := fun ht => hcross t ht t (List.mem_cons_self ..) rfl
  obtain ⟨tsize, ht⟩ := n.live t (by simp)
  have hlen := n.length_lt v
  rw [List.length_append] at hlen
  have live : ∀ a ∈ pre ++ post, a ≠ t ∧ ∃ size, (a, size) ∈ h.live index bs := by
    intro a ha
    refine ⟨?_, n.live a (List.perm_middle.mem_iff.mpr (List.mem_cons_of_mem _ ha))⟩
    rintro rfl
    rcases List.mem_append.mp ha with ha | ha
    · exact htpre ha
    · exact htpost ha
  unfold linklistRemove
  rw [findNode_spec n.linked htpre (by omega)]
  cases hl : pre.getLast? with
  | none =>
    -- the first node: the variable `source` moves on
    obtain rfl := List.getLast?_eq_none_iff.mp hl
    obtain ⟨rfl, _, hpost⟩ := n.linked
    have unchanged : KeptButLinks h.mem h.mem (h.live index bs) [source] := fun _ _ _ _ _ _ => rfl
    obtain ⟨h', bs', hres, hrest⟩ := free_unlinked v ht unchanged hpost live (.refl h index)
    refine ⟨h', h.mem.load32 source, bs', ?_, hrest⟩
    simp only [Option.getD_none, ne_eq, not_true_eq_false, ↓reduceIte]
    rw [hres]
  | some l =>
    obtain ⟨init, rfl⟩ := List.getLast?_eq_some_iff.mp hl
    have hl0 : l ≠ null := n.linked.ne_zero l (by simp)
    obtain ⟨v₂, conf, kept, linked⟩ := unlink_behind v n
    obtain ⟨h', bs', hres, hrest⟩ := free_unlinked v₂ ht kept linked live conf
    refine ⟨h', source, bs', ?_, hrest⟩
    simp only [Option.getD_some]
    rw [if_pos hl0]
    dsimp only
    rw [hres]

end Rtbus.Pool
