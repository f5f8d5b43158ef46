import Rtbus.Emos.Core

/-!
# The task queues in memory

`Queued heap tbl bs q` relates the pool and the heads in `task_tbl` to three lists of events: the
queue of priority `p` is a linked list of live nodes that hold the contexts `q p` in order, no node
is in two queues, and every live payload of the pool is a node of some queue. Posting and removing
are the two things that happen to it; both leave the other events alone, bytes and all.
-/

namespace Rtbus.Emos

open Rtbus.Pool Rtbus.Tiling

/-- A queued event: where its node is, and the context in it. -/
structure Node where
  addr : Nat
  ctx : Ctx

/-- The node at an address holds a context. -/
structure HoldsCtx (m : Memory) (node : Nat) (ctx : Ctx) : Prop where
  taskId : m (node + 4) = ctx.taskId
  id : m.load32 (node + 8) = ctx.id.toNat
  length : m.load32 (node + 12) = ctx.payload.length
  payload : m.slice (node + 16) ctx.payload.length = ctx.payload

theorem HoldsCtx.readCtx_eq {m : Memory} {node : Nat} {ctx : Ctx} (h : HoldsCtx m node ctx) :
    readCtx m node = ctx := by
  unfold readCtx
  rw [h.taskId, h.id, h.length, h.payload, UInt32.ofNat_toNat]

/-- A context depends on the bytes behind the link word only. -/
theorem HoldsCtx.congr {m m' : Memory} {node : Nat} {ctx : Ctx} (h : HoldsCtx m node ctx)
    (same : ∀ x, node + 4 ≤ x → x < node + 16 + ctx.payload.length → m' x = m x) :
    HoldsCtx m' node ctx := by
  refine ⟨?_, ?_, ?_, ?_⟩
  · rw [same _ (by omega) (by omega), h.taskId]
  · rw [Memory.load32_congr fun x _ _ => same x (by omega) (by omega), h.id]
  · rw [Memory.load32_congr fun x _ _ => same x (by omega) (by omega), h.length]
  · rw [Memory.slice_congr fun x _ _ => same x (by omega) (by omega), h.payload]

theorem writeCtx_agreeOff (m : Memory) (node : Nat) (ctx : Ctx) :
    Memory.AgreeOff m (writeCtx m node ctx) (node + 4) (node + 16 + ctx.payload.length) :=
  ((((Memory.store8_agreeOff m _ _).widen (Nat.le_refl _) (by omega)).trans
    ((Memory.store32_agreeOff _ _ _).widen (by omega) (by omega))).trans
    ((Memory.store32_agreeOff _ _ _).widen (by omega) (by omega))).trans
    ((Memory.copy_agreeOff _ _ _).widen (by omega) (Nat.le_refl _))

theorem writeCtx_holds (m : Memory) (node : Nat) (ctx : Ctx) (small : ctx.payload.length < 2 ^ 32) :
    HoldsCtx (writeCtx m node ctx) node ctx := by
  have hcopy := fun m' : Memory => Memory.copy_agreeOff m' (node + 16) ctx.payload
  have hlen := fun m' : Memory => Memory.store32_agreeOff m' (node + 12) ctx.payload.length
  have hid := fun m' : Memory => Memory.store32_agreeOff m' (node + 8) ctx.id.toNat
  refine ⟨?_, ?_, ?_, ?_⟩
  · unfold writeCtx
    rw [hcopy _ _ (by omega), hlen _ _ (by omega), hid _ _ (by omega), Memory.store8_self]
  · unfold writeCtx
    rw [(hcopy _).load32_eq (by omega), (hlen _).load32_eq (by omega),
      Memory.load32_store32 _ _ ctx.id.toNat_lt]
  · unfold writeCtx
    rw [(hcopy _).load32_eq (by omega), Memory.load32_store32 _ _ small]
  · exact Memory.slice_copy _ _ _

/-- The pool and the heads of the queues hold the events `q`. -/
structure Queued (heap : Heap) (tbl : Nat → Nat) (bs : List Block) (q : Nat → List Node) :
    Prop where
  valid : Valid heap poolId bs
  nodes : ∀ p, Nodes heap poolId bs (tbl p) ((q p).map Node.addr)
  held : ∀ p, ∀ n ∈ q p, HoldsCtx heap.mem n.addr n.ctx
  room : ∀ p, ∀ n ∈ q p, ∃ size, (n.addr, size) ∈ heap.live poolId bs ∧
    16 + n.ctx.payload.length ≤ size
  apart : ∀ p p', p ≠ p' → ∀ n ∈ q p, ∀ n' ∈ q p', n.addr ≠ n'.addr
  all : ∀ b ∈ heap.live poolId bs, ∃ p, ∃ n ∈ q p, n.addr = b.1
  high : ∀ p, taskPriorityNumber ≤ p → q p = []

/-- A context in a live payload survives a change of link words. -/
theorem HoldsCtx.of_keptButLinks {m m' : Memory} {ps : List (Nat × Nat)} {as : List Nat}
    {node size : Nat} {ctx : Ctx} (h : HoldsCtx m node ctx) (kept : KeptButLinks m m' ps as)
    (mem : (node, size) ∈ ps) (fits : 16 + ctx.payload.length ≤ size) : HoldsCtx m' node ctx :=
  h.congr fun x lo hi => kept _ mem x (by show node ≤ x; omega) (by show x < node + size; omega)
    (.inl (by show node + 4 ≤ x; omega))

/-- A list of live nodes none of whose link words may have changed. -/
theorem linked_of_keptButLinks {m m' : Memory} {ps : List (Nat × Nat)} {as xs : List Nat} {a : Nat}
    (h : Linked m a xs) (kept : KeptButLinks m m' ps as)
    (live : ∀ x ∈ xs, ∃ size, 4 ≤ size ∧ (x, size) ∈ ps) (apart : ∀ x ∈ xs, x ∉ as) :
    Linked m' a xs := by
  refine h.congr fun x hx => ?_
  obtain ⟨size, hsize, hmem⟩ := live x hx
  exact kept.load32_eq hmem hsize (apart x hx)

namespace Queued

variable {heap : Heap} {tbl : Nat → Nat} {bs : List Block} {q : Nat → List Node}

/-- The head of a queue is zero exactly if the queue is empty. -/
theorem head_eq_zero_iff (k : Queued heap tbl bs q) (p : Nat) : tbl p = null ↔ q p = [] := by
  rw [(k.nodes p).linked.eq_zero_iff, List.map_eq_nil_iff]

/-- The head of a queue is its first node. -/
theorem head_eq (k : Queued heap tbl bs q) {p : Nat} {n : Node} {rest : List Node}
    (hq : q p = n :: rest) : tbl p = n.addr := by
  have := (k.nodes p).linked
  rw [hq] at this
  exact this.1

/-- Nodes of other queues, in terms of addresses. -/
theorem not_mem_other (k : Queued heap tbl bs q) {p p' : Nat} (hne : p' ≠ p) :
    ∀ a ∈ (q p').map Node.addr, a ∉ (q p).map Node.addr := by
  intro a ha ha'
  obtain ⟨n, hn, rfl⟩ := List.mem_map.mp ha
  obtain ⟨n', hn', heq⟩ := List.mem_map.mp ha'
  exact k.apart p' p hne n hn n' hn' heq.symm

/-- A pool that has kept its blocks and its bytes holds the same events. -/
theorem of_same_mem (k : Queued heap tbl bs q) {heap' : Heap} (v' : Valid heap' poolId bs)
    (conf : Confined heap heap' poolId) (hmem : heap'.mem = heap.mem) : Queued heap' tbl bs q := by
  have hsame : heap'.live poolId bs = heap.live poolId bs := by
    unfold Heap.live
    rw [conf.fields.1]
  refine ⟨v', fun p' => ?_, ?_, ?_, k.apart, ?_, k.high⟩
  · obtain ⟨linked, live, nodup⟩ := k.nodes p'
    exact ⟨by rw [hmem]; exact linked, by rw [hsame]; exact live, nodup⟩
  · rw [hmem]
    exact k.held
  · rw [hsame]
    exact k.room
  · rw [hsame]
    exact k.all

/-- The nodes of the queues when one more is put at the end of queue `p`. -/
theorem mem_update_append {p p' : Nat} {m n : Node} :
    m ∈ Function.update q p (q p ++ [n]) p' ↔ m ∈ q p' ∨ p' = p ∧ m = n := by
  by_cases hpp : p' = p
  · subst hpp
    rw [Function.update_self, List.mem_append, List.mem_singleton]
    simp
  · rw [Function.update_of_ne hpp]
    simp [hpp]

/-- Writing a context into a node of its size keeps the bytes of the other payloads, and the node's
own link. -/
theorem write_ctx {heap : Heap} {bs : List Block} {node size : Nat} {l₁ l₂ : List (Nat × Nat)}
    (v : Valid heap poolId bs) (hlive : heap.live poolId bs = l₁ ++ (node, size) :: l₂) (ctx : Ctx)
    (room : 16 + ctx.payload.length ≤ size) :
    Valid { heap with mem := writeCtx heap.mem node ctx } poolId bs ∧
      Kept heap.mem (writeCtx heap.mem node ctx) (l₁ ++ l₂) ∧
      (writeCtx heap.mem node ctx).load32 node = heap.mem.load32 node := by
  have hwrite := writeCtx_agreeOff heap.mem node ctx
  have hnode : (node, size) ∈ heap.live poolId bs := by
    rw [hlive]
    simp
  refine ⟨v.store hnode (hwrite.widen (Nat.le_add_right _ _) (by show _ ≤ node + size; omega)),
    fun b hb x lo hi => hwrite x ?_, hwrite.load32_eq (.inl (Nat.le_refl _))⟩
  rcases live_apart (mem_live_of_split hlive b hb) hnode (live_ne_of_split hlive b hb) with h | h
  · exact .inl (by dsimp only at h; omega)
  · exact .inr (by dsimp only at h; omega)

/-- Writing a context into a node changes nothing outside the pool. -/
theorem confined_write_ctx {heap₀ heap : Heap} {bs : List Block} {node size : Nat} {ctx : Ctx}
    (c : Confined heap₀ heap poolId)
    (v : Valid { heap with mem := writeCtx heap.mem node ctx } poolId bs)
    (hnode : (node, size) ∈ heap.live poolId bs) (room : 16 + ctx.payload.length ≤ size) :
    Confined heap₀ { heap with mem := writeCtx heap.mem node ctx } poolId := by
  refine ⟨c.pools, fun x hx => ?_⟩
  have hapart := not_owned_apart v (c.owns_iff.not.mpr hx) hnode
  dsimp only at hapart
  rw [← c.mem x hx]
  exact writeCtx_agreeOff heap.mem node ctx x (by omega)

/-- A pool without a block has no event in a queue, so it is active. -/
theorem active_of_mem (k : Queued heap tbl bs q) {p : Nat} {n : Node} (hn : n ∈ q p) :
    (heap.pools poolId).active = true := by
  by_contra inactive
  obtain ⟨t, ht, _⟩ := k.room p n hn
  unfold Heap.live at ht
  rw [k.valid.empty (Bool.eq_false_iff.mpr inactive)] at ht
  cases ht

/-- A pool that holds one live payload more, a node with a context that ends queue `p`, and has kept
the others but for the links of this queue. -/
theorem add (k : Queued heap tbl bs q) {heap' : Heap} {bs' : List Block} {p head node size : Nat}
    {ctx : Ctx} {l₁ l₂ : List (Nat × Nat)} (hp : p < taskPriorityNumber)
    (v' : Valid heap' poolId bs') (hlive : heap.live poolId bs = l₁ ++ l₂)
    (hlive' : heap'.live poolId bs' = l₁ ++ (node, size) :: l₂)
    (room : 16 + ctx.payload.length ≤ size)
    (linked : Linked heap'.mem head ((q p).map Node.addr ++ [node]))
    (kept : KeptButLinks heap.mem heap'.mem (l₁ ++ l₂) ((q p).map Node.addr))
    (held : HoldsCtx heap'.mem node ctx) :
    Queued heap' (Function.update tbl p head) bs' (Function.update q p (q p ++ [⟨node, ctx⟩])) := by
  have hnew : (node, size) ∈ heap'.live poolId bs' := by
    rw [hlive']
    simp
  have hold : ∀ b ∈ heap.live poolId bs, b ∈ heap'.live poolId bs' := fun b hb =>
    mem_live_of_split hlive' b (hlive ▸ hb)
  have fresh : ∀ p', ∀ n ∈ q p', n.addr ≠ node := by
    intro p' n hn
    obtain ⟨t, ht, _⟩ := k.room p' n hn
    exact live_ne_of_split hlive' _ (hlive ▸ ht)
  rw [← hlive] at kept
  refine ⟨v', fun p' => ?_, fun p' m hm => ?_, fun p' m hm => ?_, fun p₁ p₂ hne m hm m' hm' => ?_,
    fun b hb => ?_, fun p' hp' => ?_⟩
  · have hlivep : ∀ a ∈ (q p').map Node.addr, ∃ t, (a, t) ∈ heap'.live poolId bs' := fun a ha =>
      ((k.nodes p').live a ha).imp fun _ ht => hold _ ht
    by_cases hpp : p' = p
    · subst hpp
      rw [Function.update_self, Function.update_self, List.map_append]
      refine ⟨linked, fun a ha => ?_, ?_⟩
      · rcases List.mem_append.mp ha with ha | ha
        · exact hlivep a ha
        · rw [List.mem_singleton.mp ha]
          exact ⟨size, hnew⟩
      · refine List.nodup_append.mpr ⟨(k.nodes p').nodup, by simp, fun a ha b hb => ?_⟩
        obtain ⟨n, hn, rfl⟩ := List.mem_map.mp ha
        rw [List.mem_singleton.mp hb]
        exact fresh p' n hn
    · rw [Function.update_of_ne hpp, Function.update_of_ne hpp]
      refine ⟨linked_of_keptButLinks (k.nodes p').linked kept (fun a ha => ?_)
        (k.not_mem_other hpp), hlivep, (k.nodes p').nodup⟩
      obtain ⟨t, ht⟩ := (k.nodes p').live a ha
      exact ⟨t, k.valid.live_size ht, ht⟩
  · rcases mem_update_append.mp hm with hm | ⟨_, rfl⟩
    · obtain ⟨t, ht, hfits⟩ := k.room p' m hm
      exact (k.held p' m hm).of_keptButLinks kept ht hfits
    · exact held
  · rcases mem_update_append.mp hm with hm | ⟨_, rfl⟩
    · obtain ⟨t, ht, hfits⟩ := k.room p' m hm
      exact ⟨t, hold _ ht, hfits⟩
    · exact ⟨size, hnew, room⟩
  · rcases mem_update_append.mp hm with hm | ⟨h₁, rfl⟩
    · rcases mem_update_append.mp hm' with hm' | ⟨_, rfl⟩
      · exact k.apart p₁ p₂ hne m hm m' hm'
      · exact fresh p₁ m hm
    · rcases mem_update_append.mp hm' with hm' | ⟨h₂, _⟩
      · exact (fresh p₂ m' hm').symm
      · exact absurd (h₁.trans h₂.symm) hne
  · rw [hlive'] at hb
    rcases List.mem_cons.mp (List.perm_middle.mem_iff.mp hb) with rfl | hb
    · exact ⟨p, ⟨node, ctx⟩, mem_update_append.mpr (.inr ⟨rfl, rfl⟩), rfl⟩
    · obtain ⟨p', n, hn, haddr⟩ := k.all b (by rw [hlive]; exact hb)
      exact ⟨p', n, mem_update_append.mpr (.inl hn), haddr⟩
  · rw [Function.update_of_ne (by omega)]
    exact k.high p' hp'

/-- Putting a new node with a context at the end of a queue, or failing to. -/
theorem append (k : Queued heap tbl bs q) {p : Nat} (hp : p < taskPriorityNumber) (ctx : Ctx)
    (small : 16 + ctx.payload.length ≤ 65535) :
    ∃ heap' head node bs', linklistNew heap poolId (tbl p) (16 + ctx.payload.length) =
        some (heap', head, node) ∧
      ((heap.pools poolId).active = true →
        place ((heap.pools poolId).topOfHeap - (heap.pools poolId).heapOfMemory)
          ((16 + ctx.payload.length + 3) / 4 * 4) bs = if node = null then none else some bs') ∧
      Confined heap heap' poolId ∧
      ((node = null ∧ head = tbl p ∧ bs' = bs ∧ Queued heap' tbl bs q) ∨
        (node ≠ null ∧ Queued { heap' with mem := writeCtx heap'.mem node ctx }
          (Function.update tbl p head) bs' (Function.update q p (q p ++ [⟨node, ctx⟩])))) := by
  obtain ⟨heap', head, node, bs', hres, v', conf, hplace, hcase⟩ :=
    linklistNew_spec k.valid (k.nodes p) (16 + ctx.payload.length)
      (by show 4 ≤ _; omega) (by unfold NoCarry; omega)
  refine ⟨heap', head, node, bs', hres, hplace, conf, ?_⟩
  rcases hcase with ⟨rfl, rfl, rfl, hmem⟩ | ⟨hnode, l₁, l₂, size, hsize, hlive, hlive', hlinked, hkept⟩
  · exact .inl ⟨rfl, rfl, rfl, k.of_same_mem v' conf hmem⟩
  · obtain ⟨vw, keptw, hown⟩ := write_ctx v' hlive' ctx hsize
    refine .inr ⟨hnode, k.add hp vw hlive hlive' hsize (hlinked.congr fun a ha => ?_)
      (hkept.trans keptw.butLinks) (writeCtx_holds _ _ _ (by omega))⟩
    rcases List.mem_append.mp ha with ha | ha
    · obtain ⟨t, ht⟩ := (k.nodes p).live a ha
      exact keptw.load32_eq (hlive ▸ ht) (k.valid.live_size ht)
    · rw [List.mem_singleton.mp ha]
      exact hown

/-- The nodes of the queues without one of them. -/
theorem mem_update_erase (k : Queued heap tbl bs q) {p p' : Nat} {m n : Node} {pre post : List Node}
    (hq : q p = pre ++ n :: post) :
    m ∈ Function.update q p (pre ++ post) p' ↔ m ∈ q p' ∧ m.addr ≠ n.addr := by
  by_cases hpp : p' = p
  · subst hpp
    have nodup := (k.nodes p').nodup
    rw [hq] at nodup
    have fresh := (List.nodup_cons.mp ((List.perm_middle.map Node.addr).nodup_iff.mp nodup)).1
    rw [Function.update_self, hq, List.perm_middle.mem_iff, List.mem_cons]
    constructor
    · exact fun hm => ⟨.inr hm, fun heq => fresh (heq ▸ List.mem_map_of_mem hm)⟩
    · rintro ⟨rfl | hm, hne⟩
      · exact absurd rfl hne
      · exact hm
  · rw [Function.update_of_ne hpp]
    exact ⟨fun hm => ⟨hm, k.apart p' p hpp m hm n (by rw [hq]; simp)⟩, And.left⟩

/-- Taking a node out of a queue. -/
theorem remove (k : Queued heap tbl bs q) {p : Nat} {n : Node} {pre post : List Node}
    (hq : q p = pre ++ n :: post) :
    ∃ heap' head bs', linklistRemove heap poolId (tbl p) n.addr = some (heap', head) ∧
      Confined heap heap' poolId ∧
      Queued heap' (Function.update tbl p head) bs' (Function.update q p (pre ++ post)) := by
  have hnodes := k.nodes p
  rw [hq, List.map_append, List.map_cons] at hnodes
  obtain ⟨heap', head, bs', hres, v', conf, l₁, size, l₂, hlive, hlive', hlinked, hkept⟩ :=
    linklistRemove_spec k.valid hnodes
  refine ⟨heap', head, bs', hres, conf, ?_⟩
  -- what stays in a queue stays live
  have stays : ∀ p', ∀ m ∈ Function.update q p (pre ++ post) p', m ∈ q p' ∧
      ∃ t, (m.addr, t) ∈ l₁ ++ l₂ ∧ 16 + m.ctx.payload.length ≤ t := by
    intro p' m hm
    obtain ⟨hm, hne⟩ := (k.mem_update_erase hq).mp hm
    obtain ⟨t, ht, hfits⟩ := k.room p' m hm
    rw [hlive] at ht
    rcases List.mem_cons.mp (List.perm_middle.mem_iff.mp ht) with heq | ht
    · exact absurd (congrArg Prod.fst heq) hne
    · exact ⟨hm, t, ht, hfits⟩
  refine ⟨v', fun p' => ?_, fun p' m hm => ?_, fun p' m hm => ?_, fun p₁ p₂ hne m₁ h₁ m₂ h₂ => ?_,
    fun b hb => ?_, fun p' hp' => ?_⟩
  · have live : ∀ a ∈ (Function.update q p (pre ++ post) p').map Node.addr,
        ∃ t, (a, t) ∈ l₁ ++ l₂ ∧ 16 ≤ t := by
      intro a ha
      obtain ⟨m, hm, rfl⟩ := List.mem_map.mp ha
      obtain ⟨_, t, ht, hfits⟩ := stays p' m hm
      exact ⟨t, ht, by omega⟩
    refine ⟨?_, fun a ha => ?_, ?_⟩
    · by_cases hpp : p' = p
      · subst hpp
        rw [Function.update_self, Function.update_self, List.map_append]
        exact hlinked
      · rw [Function.update_of_ne hpp] at live ⊢
        rw [Function.update_of_ne hpp]
        refine linked_of_keptButLinks (k.nodes p').linked hkept (fun a ha => ?_) fun a ha hin => ?_
        · obtain ⟨t, ht, hfits⟩ := live a ha
          exact ⟨t, by omega, ht⟩
        · refine k.not_mem_other hpp a ha ?_
          rw [hq, List.map_append]
          exact List.mem_append_left _ hin
    · obtain ⟨t, ht, _⟩ := live a ha
      exact ⟨t, by rw [hlive']; exact ht⟩
    · by_cases hpp : p' = p
      · subst hpp
        rw [Function.update_self, List.map_append]
        exact (List.nodup_cons.mp (List.perm_middle.nodup_iff.mp hnodes.nodup)).2
      · rw [Function.update_of_ne hpp]
        exact (k.nodes p').nodup
  · obtain ⟨hm, t, ht, hfits⟩ := stays p' m hm
    exact (k.held p' m hm).of_keptButLinks hkept ht hfits
  · obtain ⟨_, t, ht, hfits⟩ := stays p' m hm
    exact ⟨t, by rw [hlive']; exact ht, hfits⟩
  · exact k.apart p₁ p₂ hne m₁ (stays p₁ m₁ h₁).1 m₂ (stays p₂ m₂ h₂).1
  · rw [hlive'] at hb
    obtain ⟨p', m, hm, haddr⟩ := k.all b (mem_live_of_split hlive b hb)
    exact ⟨p', m, (k.mem_update_erase hq).mpr ⟨hm, haddr ▸ live_ne_of_split hlive b hb⟩, haddr⟩
  · have hpp : p' ≠ p := by
      rintro rfl
      have := k.high p' hp'
      rw [hq] at this
      simp at this
    rw [Function.update_of_ne hpp]
    exact k.high p' hp'

end Queued

end Rtbus.Emos
