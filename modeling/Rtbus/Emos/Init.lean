import Rtbus.Emos.Deaf
import Rtbus.Emos.PostSize

/-!
# Initialisation

`rtbus_init` clears the slots and the queues, sets the pool up, registers the table, and posts one
`INIT` event for each entry that asks for it. Up to the registry a failure leaves nothing behind.
The events are another matter: each takes 24 bytes of the fresh pool, and when one of them finds no
room `emos_init` returns with the events before it queued and the table registered. So
initialisation is all or nothing exactly if the pool has room for all of the events, or for no block
at all.
-/

namespace Rtbus.Emos

open Rtbus.Pool Rtbus.Tiling

variable {H X : Type} {payloadMax : Nat}

/-- The entries of the table that is given to `rtbus_init`. -/
def givenEntries : Option (EntryTable H) → List (Entry H)
  | none => []
  | some tbl => tbl.entries

/-- The `INIT` events of one priority, in table order. -/
def initEvents (entries : List (Entry H)) (p : Nat) : List Ctx :=
  (entries.filter fun entry => entry.init && entry.priority.toNat == p).map fun entry =>
    (initArgs entry).ctx

/-- `rtbus_init` is all or nothing. It returns and leaves no delayed event. With 0 the queues hold
the `INIT` events of their priority and nothing else; with an error they are empty, and stay so, with
every post failing, whatever the program does until it calls `rtbus_init` again. -/
def AllOrNothing (payloadMax : Nat) (s : Bus H (Log H)) (poolAddr poolSize : Nat)
    (entryTbl : Option (EntryTable H)) : Prop :=
  ∃ s' ret, rtbusInit s poolAddr poolSize entryTbl = some (s', ret) ∧
    (∀ event ∈ s'.delayed, event.used = false) ∧
    ((ret = .ok ∧ ∃ bs q, Ready s' bs q ∧
        ∀ p, (q p).map Node.ctx = initEvents (givenEntries entryTbl) p) ∨
      ((∃ e, ret = .err e) ∧ (∀ p, s'.taskTbl p = null) ∧ StaysDeaf payloadMax s'))

/-- The table passes the checks of `emos_entries_init`. -/
def TableAccepted (entryTbl : Option (EntryTable H)) : Prop :=
  givenEntries entryTbl ≠ [] ∧
    checkEntries (givenEntries entryTbl) (givenEntries entryTbl) = .ok

/-- The bytes that `place` measures blocks against in a pool that was just set up. -/
def freshRoom (poolAddr poolSize : Nat) : Nat :=
  let skip := (poolAddr + 3) / 4 * 4 - poolAddr
  if poolSize ≤ skip + 8 then 0 else poolSize - skip - 1

/-- The bytes that an `INIT` event takes of the pool: the header of its block, the link word, and a
context without payload. -/
def initBlock : Nat := 24

/-- The call fails before the table is registered, or the fresh pool has room for all `INIT` events,
or it has none for any block. -/
def InitFits (poolAddr poolSize : Nat) (entryTbl : Option (EntryTable H)) : Prop :=
  poolAddr = null ∨ poolSize = 0 ∨ ¬ TableAccepted entryTbl ∨
    initBlock * (givenEntries entryTbl).countP Entry.init ≤ freshRoom poolAddr poolSize ∨
    freshRoom poolAddr poolSize < smallestBlock

/-! ## The table -/

/-- If only one element satisfies a predicate, the search finds it. -/
theorem find_of_countP {α : Type} {p : α → Bool} {l : List α} {a : α} (mem : a ∈ l) (ha : p a = true)
    (single : l.countP p ≤ 1) : l.find? p = some a := by
  induction l with
  | nil => cases mem
  | cons b l ih =>
    cases hb : p b with
    | false =>
      rw [List.find?_cons_of_neg (by simp [hb])]
      rw [List.countP_cons_of_neg (by simp [hb])] at single
      refine ih ?_ single
      rcases List.mem_cons.mp mem with rfl | mem
      · exact absurd (ha.symm.trans hb) nofun
      · exact mem
    | true =>
      rw [List.find?_cons_of_pos hb]
      rw [List.countP_cons_of_pos hb] at single
      rcases List.mem_cons.mp mem with rfl | mem
      · rfl
      · have hpos := List.countP_pos_iff.mpr ⟨a, mem, ha⟩
        omega

/-- In an accepted table no id is a duplicate. -/
theorem checkEntries_unique {entries rest : List (Entry H)} (h : checkEntries entries rest = .ok) :
    ∀ entry ∈ rest, entryIdIsDuplicate entries entry = false := by
  induction rest with
  | nil => simp
  | cons e rest ih =>
    rw [checkEntries] at h
    split at h
    · cases h
    · split at h
      · cases h
      · rename_i hunique
        intro entry hentry
        rcases List.mem_cons.mp hentry with rfl | hentry
        · simpa using hunique
        · exact ih h entry hentry

/-- So an entry of an accepted table is found by its id. -/
theorem find_registered {entries : List (Entry H)} (short : entries.length < 256)
    (h : checkEntries entries entries = .ok) {entry : Entry H} (mem : entry ∈ entries) :
    (Backend.table (some entries)).find entry.taskId = some entry := by
  have hunique := checkEntries_unique h entry mem
  have hle := List.countP_le_length (p := fun e : Entry H => e.taskId == entry.taskId) (l := entries)
  unfold entryIdIsDuplicate at hunique
  rw [Nat.mod_eq_of_lt (Nat.lt_of_le_of_lt hle short), decide_eq_false_iff_not] at hunique
  exact find_of_countP mem (beq_self_eq_true _) (Nat.not_lt.mp hunique)

/-! ## The pool -/

/-- The blocks of the first `INIT` events. -/
def initBlocks (n : Nat) : List Block := List.replicate n ⟨true, 16⟩

theorem extent_initBlocks (n : Nat) : extent 8 (initBlocks n) = initBlock * n := by
  unfold initBlocks initBlock
  induction n with
  | zero => rfl
  | succ n ih =>
    rw [List.replicate_succ, extent_cons, ih]
    dsimp only
    omega

/-- Another block is placed as long as there are 24 bytes for it. -/
theorem place_initBlocks (room n : Nat) : place room 16 (initBlocks n) =
    if initBlock * (n + 1) ≤ room then some (initBlocks (n + 1)) else none := by
  have hnone : reuse 16 (initBlocks n) = none := reuse_eq_none fun b hb hfree => by
    rw [List.eq_of_mem_replicate hb] at hfree
    cases hfree
  unfold place
  rw [extent_initBlocks, hnone]
  have hsnoc : initBlocks n ++ [⟨true, 16⟩] = initBlocks (n + 1) :=
    List.replicate_succ'.symm
  rw [hsnoc]
  rfl

/-- The room of a fresh pool. If there is any, the pool is active. -/
theorem poolRoom_fresh (h : Heap) {poolAddr poolSize : Nat} (range : poolAddr + poolSize ≤ 2 ^ 32)
    (addr : poolAddr ≠ null) :
    poolRoom (initMemPool h poolId poolAddr poolSize) = freshRoom poolAddr poolSize ∧
      (0 < freshRoom poolAddr poolSize →
        ((initMemPool h poolId poolAddr poolSize).pools poolId).active = true) := by
  change poolAddr ≠ 0 at addr
  have hstart : 8 < poolSize → roundUp poolAddr = (poolAddr + 3) / 4 * 4 := by
    intro hlen
    unfold roundUp wrap maxAlignment
    omega
  unfold initMemPool freshRoom poolRoom
  rw [if_neg (by decide)]
  dsimp only
  by_cases hsmall : poolSize ≤ 8
  · rw [if_pos (.inr hsmall), if_pos (by omega)]
    dsimp only [Heap.setPool]
    rw [Function.update_self]
    exact ⟨rfl, fun h' => by cases h'⟩
  · have hskip : sub32 (roundUp poolAddr) poolAddr = (poolAddr + 3) / 4 * 4 - poolAddr := by
      rw [hstart (Nat.not_le.mp hsmall)]
      unfold sub32
      omega
    rw [if_neg (by rintro (h' | h'); exacts [addr h', hsmall h']), hskip]
    by_cases hroom : poolSize ≤ (poolAddr + 3) / 4 * 4 - poolAddr + 8
    · rw [if_pos hroom, if_pos (by
        change poolSize ≤ wrap ((poolAddr + 3) / 4 * 4 - poolAddr + 8)
        unfold wrap
        omega)]
      dsimp only [Heap.setPool]
      rw [Function.update_self]
      exact ⟨rfl, fun h' => by cases h'⟩
    · rw [if_neg hroom, if_neg (by
        change ¬ poolSize ≤ wrap ((poolAddr + 3) / 4 * 4 - poolAddr + 8)
        unfold wrap
        omega)]
      dsimp only
      rw [Function.update_self]
      refine ⟨?_, fun _ => rfl⟩
      show wrap (roundUp poolAddr + (poolSize - ((poolAddr + 3) / 4 * 4 - poolAddr) - 1)) -
        roundUp poolAddr = _
      rw [hstart (Nat.not_le.mp hsmall)]
      unfold wrap
      omega

/-! ## The events -/

/-- An `INIT` event is taken as long as there is room for its block. -/
theorem accepts_init {s : Bus H X} {entry : Entry H}
    (active : 0 < poolRoom s.heap → (s.heap.pools poolId).active = true)
    (found : s.backend.find entry.taskId = some entry) (n : Nat) :
    accepts s (initBlocks n) (initArgs entry) =
      if initBlock * (n + 1) ≤ poolRoom s.heap then some (initBlocks (n + 1)) else none := by
  have hfound : (s.backend.find (initArgs entry).taskId).isSome = true := by
    show (s.backend.find entry.taskId).isSome = true
    rw [found]
    rfl
  unfold accepts
  cases hact : (s.heap.pools poolId).active with
  | true =>
    have small : 16 + (initArgs entry).payloadLen.toNat ≤ 65535 := show 16 + 0 ≤ 65535 by decide
    rw [if_pos ⟨hfound, fun _ => rfl, small, rfl⟩]
    show place (poolRoom s.heap) ((16 + 0 + 3) / 4 * 4) (initBlocks n) = _
    exact place_initBlocks _ n
  | false =>
    have hzero : ¬ 0 < poolRoom s.heap := fun h => absurd (hact.symm.trans (active h)) nofun
    rw [if_neg fun h => absurd h.2.2.2 nofun, if_neg (by unfold initBlock; omega)]

theorem initEvents_cons (entry : Entry H) (rest : List (Entry H)) (p : Nat) :
    initEvents (entry :: rest) p =
      (if entry.init = true ∧ entry.priority.toNat = p then [(initArgs entry).ctx] else []) ++
        initEvents rest p := by
  unfold initEvents
  by_cases h : entry.init = true ∧ entry.priority.toNat = p
  · rw [if_pos h, List.filter_cons_of_pos (by simp [h.1, h.2]), List.map_cons]
    rfl
  · rw [if_neg h, List.filter_cons_of_neg (by simpa using h)]
    rfl

/-- The loop that posts the `INIT` events: each takes the next block, until one finds no room. -/
theorem postInitEvents_spec {entries : List (Entry H)} (short : entries.length < 256)
    (checked : checkEntries entries entries = .ok) {s : Bus H X}
    (backend : s.backend = .table (some entries))
    (active : 0 < poolRoom s.heap → (s.heap.pools poolId).active = true) {n : Nat}
    {q : Nat → List Node} (r : Ready s (initBlocks n) q) (fits : initBlock * n ≤ poolRoom s.heap)
    {pre rest : List (Entry H)} (parts : pre ++ rest = entries) :
    ∃ s' ret n' q', postInitEvents rest.length pre.length s = some (s', ret) ∧ SameRest s s' ∧
      Ready s' (initBlocks n') q' ∧
      ((initBlock * (n + rest.countP Entry.init) ≤ poolRoom s.heap ∧ ret = .ok ∧
          ∀ p, (q' p).map Node.ctx = (q p).map Node.ctx ++ initEvents rest p) ∨
        (poolRoom s.heap < initBlock * (n + rest.countP Entry.init) ∧ (∃ e, ret = .err e) ∧
          n' = poolRoom s.heap / initBlock)) := by
  induction rest generalizing s n q pre with
  | nil =>
    exact ⟨s, .ok, n, q, rfl, SameRest.refl s, r, .inl ⟨fits, rfl, fun p => (List.append_nil _).symm⟩⟩
  | cons entry rest ih =>
    have hparts : (pre ++ [entry]) ++ rest = entries := by
      rw [List.append_assoc]
      exact parts
    have hget : s.backend.getByIndex pre.length = some entry := by
      rw [backend]
      show entries[pre.length]? = some entry
      rw [← parts, List.getElem?_append_right (Nat.le_refl _), Nat.sub_self]
      rfl
    have hlen : pre.length + 1 = (pre ++ [entry]).length := by simp
    rw [List.length_cons]
    unfold postInitEvents
    simp only [hget]
    cases hinit : entry.init with
    | false =>
      rw [if_neg nofun, hlen, List.countP_cons_of_neg (by simp [hinit])]
      obtain ⟨s', ret, n', q', hres, same, r', hcase⟩ := ih backend active r fits hparts
      refine ⟨s', ret, n', q', hres, same, r', hcase.imp_left fun ⟨hroom, hok, hq⟩ =>
        ⟨hroom, hok, fun p => ?_⟩⟩
      rw [hq, initEvents_cons, if_neg (by simp [hinit]), List.nil_append]
    | true =>
      have mem : entry ∈ entries := by
        rw [← parts]
        exact List.mem_append_right _ List.mem_cons_self
      have found := find_registered short checked mem
      rw [← backend] at found
      obtain ⟨s₁, ret, hres, same, hposted⟩ := emosPost_spec r (initArgs entry)
        (show 0 + 16 < 2 ^ 32 by decide)
      rw [accepts_init active found] at hposted
      rw [if_pos rfl, hres, List.countP_cons_of_pos (by simp [hinit])]
      by_cases hroom : initBlock * (n + 1) ≤ poolRoom s.heap
      · rw [if_pos hroom] at hposted
        rcases hposted with ⟨hnone, _⟩ | ⟨bs₁, entry', addr, hsome, rfl, hfind, r₁⟩
        · cases hnone
        · cases hsome
          obtain rfl : entry = entry' := Option.some.inj (found.symm.trans hfind)
          obtain ⟨hbase, htop, hactive⟩ := same.confined.fields
          have hsame : poolRoom s₁.heap = poolRoom s.heap := by
            unfold poolRoom
            rw [hbase, htop]
          obtain ⟨s₂, ret, n', q', hres₂, same₂, r₂, hcase⟩ := ih (same.backend.trans backend)
            (by rw [hsame, hactive]; exact active) r₁ (by rw [hsame]; exact hroom) hparts
          rw [hsame, Nat.add_right_comm] at hcase
          dsimp only
          rw [hlen]
          refine ⟨s₂, ret, n', q', hres₂, same.trans same₂, r₂, hcase.imp_left
            fun ⟨hroom, hok, hq⟩ => ⟨hroom, hok, fun p => ?_⟩⟩
          rw [hq, initEvents_cons]
          by_cases hp : entry.priority.toNat = p
          · subst hp
            rw [Function.update_self, if_pos ⟨hinit, rfl⟩, List.map_append, List.append_assoc]
            rfl
          · rw [Function.update_of_ne (Ne.symm hp), if_neg fun h => hp h.2, List.nil_append]
      · rw [if_neg hroom] at hposted
        rcases hposted with ⟨_, ⟨e, rfl⟩, _, r₁⟩ | ⟨_, _, _, hsome, _⟩
        · refine ⟨s₁, .err e, n, q, rfl, same, r₁, .inr ⟨?_, ⟨e, rfl⟩, ?_⟩⟩
          · unfold initBlock at hroom ⊢
            omega
          · unfold initBlock at hroom fits ⊢
            omega
        · cases hsome

/-! ## The whole call -/

/-- The delayed events are all free behind a reset. -/
theorem resetDelayedEvents_unused (s : Bus H X) :
    ∀ event ∈ (resetDelayedEvents s).delayed, event.used = false := by
  intro event hevent
  obtain ⟨_, _, rfl⟩ := List.mem_map.mp hevent
  rfl

/-- A table that was registered is given up. -/
theorem resetDelayedEvents_backend {s : Bus H X} {registered : Option (List (Entry H))}
    (backend : s.backend = .table registered) :
    (resetDelayedEvents s).backend.reset = .table none := by
  show s.backend.reset = _
  rw [backend]
  rfl

/-- Without a pool or a table that is accepted, `rtbus_init` leaves an empty bus without tasks. -/
theorem rtbusInit_refused {s : Bus H X} {registered : Option (List (Entry H))}
    (backend : s.backend = .table registered) {poolAddr poolSize : Nat}
    {entryTbl : Option (EntryTable H)}
    (h : poolAddr = null ∨ poolSize = 0 ∨ ¬ TableAccepted entryTbl) :
    ∃ s' e, rtbusInit s poolAddr poolSize entryTbl = some (s', .err e) ∧ Deaf s' ∧
      ∀ event ∈ s'.delayed, event.used = false := by
  have cleared : ∀ s₁ : Bus H X, (∀ p, s₁.taskTbl p = null) → s₁.entryCount = 0 →
      Deaf (resetDelayedEvents s₁) ∧ ∀ event ∈ (resetDelayedEvents s₁).delayed,
        event.used = false :=
    fun s₁ empty count => ⟨⟨empty, .inl count⟩, resetDelayedEvents_unused s₁⟩
  unfold rtbusInit emosInit emosInitPool
  by_cases hpool : poolAddr = null ∨ poolSize = 0
  · rw [if_pos hpool]
    exact ⟨_, _, rfl, cleared _ (fun _ => rfl) rfl⟩
  · have htbl : ¬ TableAccepted entryTbl := h.elim (fun h => absurd (.inl h) hpool)
      fun h => h.elim (fun h => absurd (.inr h) hpool) id
    have hinit : ∃ b e, (Backend.table none : Backend H).init entryTbl = (b, .err e, 0) := by
      cases entryTbl with
      | none => exact ⟨_, _, rfl⟩
      | some tbl =>
        unfold Backend.init
        dsimp only
        split
        · exact ⟨_, _, rfl⟩
        · rename_i hlen
          cases hcheck : checkEntries tbl.entries tbl.entries with
          | err e => exact ⟨_, _, rfl⟩
          | ok => exact absurd ⟨fun h => hlen (congrArg List.length h), hcheck⟩ htbl
    obtain ⟨b, e, hinit⟩ := hinit
    rw [if_neg hpool]
    dsimp only
    rw [resetDelayedEvents_backend backend, hinit]
    exact ⟨_, _, rfl, cleared _ (fun _ => rfl) rfl⟩

/-- With both, it registers the table and posts `INIT` events: all of them if the fresh pool has
room, or as many as it has room for, and then it returns an error. -/
theorem rtbusInit_posts {s : Bus H X} {registered : Option (List (Entry H))}
    (backend : s.backend = .table registered) {poolAddr poolSize : Nat}
    (range : poolAddr + poolSize ≤ 2 ^ 32) {entryTbl : Option (EntryTable H)}
    (addr : poolAddr ≠ null) (size : poolSize ≠ 0) (accepted : TableAccepted entryTbl) :
    ∃ s' ret n q, rtbusInit s poolAddr poolSize entryTbl = some (s', ret) ∧
      Ready s' (initBlocks n) q ∧ poolRoom s'.heap = freshRoom poolAddr poolSize ∧
      (0 < poolRoom s'.heap → (s'.heap.pools poolId).active = true) ∧
      s'.backend = .table (some (givenEntries entryTbl)) ∧
      (∀ event ∈ s'.delayed, event.used = false) ∧
      ((initBlock * (givenEntries entryTbl).countP Entry.init ≤ poolRoom s'.heap ∧ ret = .ok ∧
          ∀ p, (q p).map Node.ctx = initEvents (givenEntries entryTbl) p) ∨
        (poolRoom s'.heap < initBlock * (givenEntries entryTbl).countP Entry.init ∧
          (∃ e, ret = .err e) ∧ n = poolRoom s'.heap / initBlock)) := by
  obtain ⟨nonempty, checked⟩ := accepted
  obtain ⟨tbl, rfl⟩ : ∃ tbl, entryTbl = some tbl := by
    cases entryTbl with
    | none => exact absurd rfl nonempty
    | some tbl => exact ⟨tbl, rfl⟩
  change tbl.entries ≠ [] at nonempty
  change checkEntries tbl.entries tbl.entries = .ok at checked
  have hinit : (Backend.table none : Backend H).init (some tbl) =
      (.table (some tbl.entries), .ok, tbl.entries.length) := by
    unfold Backend.init
    dsimp only
    rw [if_neg fun h => nonempty (List.length_eq_zero_iff.mp h), checked]
  obtain ⟨registry, hcount⟩ := Backend.init_ok hinit
  obtain ⟨v, _⟩ := @initMemPool_spec s.heap poolId _ _ (by decide) range
  obtain ⟨hroom, hactive⟩ := poolRoom_fresh s.heap range addr
  obtain ⟨s₁, ret, n, q, hres, same, r, hcase⟩ := postInitEvents_spec (n := 0)
    (s := { resetDelayedEvents s with
      heap := initMemPool s.heap poolId poolAddr poolSize, taskTbl := fun _ => null,
      pollNextIndex := 0, backend := .table (some tbl.entries), entryCount := tbl.entries.length })
    tbl.count_lt checked rfl (by rw [hroom]; exact hactive)
    ⟨queued_fresh v, registry, hcount, fun _ _ h => by cases h⟩ (Nat.zero_le _)
    (rfl : [] ++ tbl.entries = tbl.entries)
  obtain ⟨hbase, htop, hact⟩ := same.confined.fields
  have hroom₁ : poolRoom s₁.heap = freshRoom poolAddr poolSize := by
    rw [← hroom]
    unfold poolRoom
    rw [hbase, htop]
  have unused : ∀ event ∈ s₁.delayed, event.used = false := by
    rw [same.delayed]
    exact resetDelayedEvents_unused s
  have active₁ : 0 < poolRoom s₁.heap → (s₁.heap.pools poolId).active = true := by
    rw [hroom₁, hact]
    exact hactive
  have hcall : rtbusInit s poolAddr poolSize (some tbl) =
      match (s₁, ret) with
      | (s, .ok) => some (s, .ok)
      | (s, .err e) => some (resetDelayedEvents s, .err e) := by
    unfold rtbusInit emosInit emosInitPool
    rw [if_neg (by rintro (h | h); exacts [addr h, size h])]
    dsimp only
    rw [resetDelayedEvents_backend backend, hinit]
    dsimp only
    rw [show (resetDelayedEvents s).heap = s.heap from rfl]
    dsimp only [List.length_nil] at hres
    rw [hres]
    cases ret with
    | ok => rfl
    | err e => rfl
  rw [Nat.zero_add] at hcase
  rw [← hroom₁] at hroom
  change (initBlock * _ ≤ poolRoom (initMemPool s.heap poolId poolAddr poolSize) ∧ _) ∨
    (poolRoom (initMemPool s.heap poolId poolAddr poolSize) < _ ∧ _) at hcase
  rw [hroom] at hcase
  rcases hcase with ⟨hfits, rfl, hq⟩ | ⟨hfull, ⟨e, rfl⟩, hn⟩
  · exact ⟨s₁, .ok, n, q, hcall, r, hroom₁, active₁, same.backend, unused, .inl ⟨hfits, rfl, hq⟩⟩
  · refine ⟨resetDelayedEvents s₁, .err e, n, q, hcall, r.congr rfl rfl rfl rfl, hroom₁, active₁,
      same.backend, resetDelayedEvents_unused s₁, .inr ⟨hfull, ⟨e, rfl⟩, hn⟩⟩

/-- A pool without blocks has no queued events. -/
theorem Queued.empty_of_no_blocks {h : Heap} {tbl : Nat → Nat} {q : Nat → List Node}
    (k : Queued h tbl [] q) (p : Nat) : tbl p = null := by
  rw [k.head_eq_zero_iff]
  refine List.eq_nil_iff_forall_not_mem.mpr fun n hn => ?_
  obtain ⟨size, hlive, _⟩ := k.room p n hn
  cases hlive

/-- A pool with the block of an event has one queued. -/
theorem Queued.exists_head {h : Heap} {tbl : Nat → Nat} {q : Nat → List Node} {n : Nat}
    (k : Queued h tbl (initBlocks (n + 1)) q) : ∃ p, tbl p ≠ null := by
  obtain ⟨b, hb⟩ : ∃ b, b ∈ h.live poolId (initBlocks (n + 1)) := by
    unfold Heap.live initBlocks
    rw [List.replicate_succ, payloads_cons_busy]
    exact ⟨_, List.mem_cons_self⟩
  obtain ⟨p, node, hnode, _⟩ := k.all b hb
  refine ⟨p, fun hnull => ?_⟩
  rw [(k.head_eq_zero_iff p).mp hnull] at hnode
  cases hnode

/-- A post of 2^32 - 12 bytes asks for four. -/
def wrappedPost (taskId : UInt8) : PostArgs := { zerosPost 0xfffffff4 with taskId := taskId }

theorem allocLen_wrappedPost (taskId : UInt8) : allocLen (wrappedPost taskId) = 4 := by
  show wrap (4 + 12 + (0xfffffff4 : UInt32).toNat) = 4
  decide

/-- With a task and room for the smallest block, the bus is not deaf: it takes a post whose block
size wraps. -/
theorem not_staysDeaf {s : Bus H (Log H)} {q : Nat → List Node} (r : Ready s [] q)
    {taskId : UInt8} {entry : Entry H} (found : s.backend.find taskId = some entry)
    (active : (s.heap.pools poolId).active = true) (room : smallestBlock ≤ poolRoom s.heap) :
    ¬ StaysDeaf payloadMax s := by
  intro deaf
  have hplace : place (poolRoom s.heap) ((4 + 3) / 4 * 4) [] = some [⟨true, 4⟩] := by
    unfold place
    rw [extent_nil, if_pos (by change 12 ≤ poolRoom s.heap at room; omega)]
    rfl
  have hroom : ¬ NoRoom s [] 4 := by
    rintro (h | h)
    · exact absurd (h.symm.trans active) nofun
    · exact absurd (h.symm.trans hplace) nofun
  have found' : s.backend.find (wrappedPost taskId).taskId = some entry := found
  have given : (wrappedPost taskId).payload ≠ none := nofun
  have halloc := emosPost_alloc r found' given
  rw [allocLen_wrappedPost] at halloc
  rcases halloc with ⟨_, _, _, _, _, h⟩ | ⟨_, _, _, s₁, _, _, _, _, _, hres, _⟩
  · rcases h with h | h | h
    · exact absurd h (by decide)
    · exact absurd h (by decide)
    · exact hroom h
  · have hrun : Op.run payloadMax (.act (.post (wrappedPost taskId))) s =
        some (note s₁ (.did (.post (wrappedPost taskId)) .ok)) := by
      unfold Op.run Act.run Act.perform rtbusPost
      simp only [hres]
    obtain ⟨_, ⟨log, hrest, refused⟩, _⟩ := deaf _ (.step (.start rfl) hrun)
    have hlog : [.did (.post (wrappedPost taskId)) .ok] = log := by
      refine List.append_cancel_left (Eq.trans ?_ hrest)
      show s.rest ++ _ = s₁.rest ++ _
      rw [(emosPost_frame hres).rest]
    obtain ⟨e, he⟩ := refused (wrappedPost taskId) .ok (hlog ▸ List.mem_singleton.mpr rfl)
    cases he

/-- If the pool has room for some blocks but not for all events, initialisation is not all or
nothing. -/
theorem not_allOrNothing {s : Bus H (Log H)} {registered : Option (List (Entry H))}
    (backend : s.backend = .table registered) {poolAddr poolSize : Nat}
    (range : poolAddr + poolSize ≤ 2 ^ 32) {entryTbl : Option (EntryTable H)}
    (h : ¬ InitFits poolAddr poolSize entryTbl) :
    ¬ AllOrNothing payloadMax s poolAddr poolSize entryTbl := by
  unfold InitFits at h
  simp only [not_or, Classical.not_not, Nat.not_le, Nat.not_lt] at h
  obtain ⟨addr, size, accepted, full, room⟩ := h
  obtain ⟨s', ret, n, q, hres, r, hroom, active, hback, _, hcase⟩ :=
    rtbusInit_posts backend range addr size accepted
  rw [← hroom] at full room
  rcases hcase with ⟨hfits, _⟩ | ⟨_, ⟨e, rfl⟩, hn⟩
  · omega
  · rintro ⟨s₁, ret, hres₁, _, hcase⟩
    cases hres₁.symm.trans hres
    rcases hcase with ⟨hok, _⟩ | ⟨_, empty, deaf⟩
    · cases hok
    · cases n with
      | succ n =>
        obtain ⟨p, hp⟩ := r.queued.exists_head
        exact hp (empty p)
      | zero =>
        obtain ⟨entry, mem⟩ := List.exists_mem_of_ne_nil _ accepted.1
        have short : (givenEntries entryTbl).length < 256 := by
          cases entryTbl with
          | none => exact absurd rfl accepted.1
          | some tbl => exact tbl.count_lt
        have found := find_registered short accepted.2 mem
        rw [← hback] at found
        exact not_staysDeaf r found (active (Nat.lt_of_lt_of_le (by decide) room)) room deaf

/-- Initialisation is all or nothing, whatever the bus was used for before, exactly if it fails before
the table is registered, or the fresh pool has room for all `INIT` events or for no block. -/
theorem init_all_or_nothing_iff (payloadMax : Nat) {s : Bus H (Log H)}
    {registered : Option (List (Entry H))} (backend : s.backend = .table registered)
    {poolAddr poolSize : Nat} (range : poolAddr + poolSize ≤ 2 ^ 32)
    (entryTbl : Option (EntryTable H)) :
    AllOrNothing payloadMax s poolAddr poolSize entryTbl ↔ InitFits poolAddr poolSize entryTbl := by
  refine ⟨fun h => Classical.byContradiction fun hno => not_allOrNothing backend range hno h, ?_⟩
  intro h
  by_cases early : poolAddr = null ∨ poolSize = 0 ∨ ¬ TableAccepted entryTbl
  · obtain ⟨s', e, hres, deaf, unused⟩ := rtbusInit_refused backend early
    exact ⟨s', _, hres, unused, .inr ⟨⟨e, rfl⟩, deaf.empty, deaf.stays⟩⟩
  · simp only [not_or, Classical.not_not] at early
    obtain ⟨addr, size, accepted⟩ := early
    obtain ⟨s', ret, n, q, hres, r, hroom, active, hback, unused, hcase⟩ :=
      rtbusInit_posts backend range addr size accepted
    refine ⟨s', ret, hres, unused, ?_⟩
    rcases hcase with ⟨_, rfl, hq⟩ | ⟨full, herr, hn⟩
    · exact .inl ⟨rfl, _, q, r, hq⟩
    · -- the pool has no room at all, so no event was queued
      have small : poolRoom s'.heap < smallestBlock := by
        rcases h with h | h | h | h | h
        · exact absurd h addr
        · exact absurd h size
        · exact absurd accepted h
        · rw [hroom] at full
          omega
        · rw [hroom]
          exact h
      have hzero : n = 0 := by
        rw [hn]
        exact Nat.div_eq_of_lt (Nat.lt_trans small (by decide))
      subst hzero
      have deaf : Deaf s' := ⟨r.queued.empty_of_no_blocks, .inr ⟨r.queued.valid, small⟩⟩
      exact .inr ⟨herr, deaf.empty, deaf.stays⟩

/-- The call for one task and a pool of 256 bytes. -/
theorem oneTask_init_all_or_nothing :
    AllOrNothing 32 (Bus.boot (.table none)) 0x20001000 256 (some oneTask) :=
  (init_all_or_nothing_iff 32 rfl (by decide) (some oneTask)).mpr
    (.inr (.inr (.inr (.inl (by decide)))))

/-- Two tasks that each get an `INIT` event. -/
def twoTasks : EntryTable Unit :=
  { entries := [
      { taskId := 1, priority := 0, taskEntry := some (), init := true, always := false },
      { taskId := 2, priority := 1, taskEntry := some (), init := true, always := false }]
    count_lt := by decide }

/-- In a pool of 40 bytes the first event is queued, and `rtbus_init` fails. -/
theorem crowded_init_leaves_event :
    ¬ AllOrNothing 32 (Bus.boot (.table none)) 0x20001000 40 (some twoTasks) := by
  refine not_allOrNothing rfl (by decide) ?_
  rintro (h | h | h | h | h)
  · exact absurd h (by decide)
  · exact absurd h (by decide)
  · exact h ⟨nofun, rfl⟩
  · exact absurd h (by decide)
  · exact absurd h (by decide)

end Rtbus.Emos
