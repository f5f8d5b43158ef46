import Rtbus.Emos.Facade
import Rtbus.Emos.Queues

/-!
# What the functions of the bus do to the queues

`Ready s bs q` is the invariant of an initialised bus whose queues are `q`. A post follows
`accepts`: it says from the registry and the blocks of the pool alone whether the event is taken,
and what blocks the pool has then. Dispatching hands out the first event of the first non-empty
queue and takes it out once its handler has returned, whatever the handler has posted meanwhile.
-/

namespace Rtbus.Emos

open Rtbus.Pool Rtbus.Tiling

variable {H X : Type}

/-- An initialised bus with the queues `q`. -/
structure Ready (s : Bus H X) (bs : List Block) (q : Nat → List Node) : Prop where
  queued : Queued s.heap s.taskTbl bs q
  registry : Registry s.backend
  count_pos : 0 < s.entryCount
  tasks : ∀ p, ∀ n ∈ q p, ∃ entry, s.backend.find n.ctx.taskId = some entry ∧
    entry.priority.toNat = p

/-- What posting and removing leave alone. -/
structure SameRest (s s' : Bus H X) : Prop where
  entryCount : s'.entryCount = s.entryCount
  pollNextIndex : s'.pollNextIndex = s.pollNextIndex
  backend : s'.backend = s.backend
  delayed : s'.delayed = s.delayed
  uptime : s'.uptime = s.uptime
  rest : s'.rest = s.rest
  confined : Confined s.heap s'.heap poolId

theorem SameRest.refl (s : Bus H X) : SameRest s s :=
  ⟨rfl, rfl, rfl, rfl, rfl, rfl, Confined.refl s.heap poolId⟩

theorem SameRest.trans {s₁ s₂ s₃ : Bus H X} (h : SameRest s₁ s₂) (h' : SameRest s₂ s₃) :
    SameRest s₁ s₃ :=
  ⟨h'.entryCount.trans h.entryCount, h'.pollNextIndex.trans h.pollNextIndex,
    h'.backend.trans h.backend, h'.delayed.trans h.delayed, h'.uptime.trans h.uptime,
    h'.rest.trans h.rest, h.confined.trans h'.confined⟩

/-- Neither the slots, the clock nor the rest of the program have changed. -/
structure SameSlots (s s' : Bus H X) : Prop where
  delayed : s'.delayed = s.delayed
  uptime : s'.uptime = s.uptime
  rest : s'.rest = s.rest

theorem SameSlots.refl (s : Bus H X) : SameSlots s s := ⟨rfl, rfl, rfl⟩

theorem SameSlots.trans {s₁ s₂ s₃ : Bus H X} (h : SameSlots s₁ s₂) (h' : SameSlots s₂ s₃) :
    SameSlots s₁ s₃ :=
  ⟨h'.delayed.trans h.delayed, h'.uptime.trans h.uptime, h'.rest.trans h.rest⟩

/-- A post changes the heap, the queues and the semaphore, and nothing else, in any state. -/
theorem emosPost_shape {s s' : Bus H X} {args : PostArgs} {ret : Ret}
    (h : emosPost s args = some (s', ret)) :
    s' = { s with heap := s'.heap, taskTbl := s'.taskTbl, eventSem := s'.eventSem } := by
  unfold emosPost at h
  split at h
  · cases h; rfl
  · split at h
    · cases h; rfl
    · split at h
      · cases h; rfl
      · split at h
        · cases h; rfl
        · dsimp only at h
          split at h
          · cases h; rfl
          · split at h
            · cases h
            · split at h
              · cases h; rfl
              · cases h; rfl

/-- A post touches none of them, in any state. -/
theorem emosPost_frame {s s' : Bus H X} {args : PostArgs} {ret : Ret}
    (h : emosPost s args = some (s', ret)) : SameSlots s s' := by
  rw [emosPost_shape h]
  exact ⟨rfl, rfl, rfl⟩

/-- A queued event keeps its task as long as the registry stays. -/
theorem Ready.of_queued {s s' : Bus H X} {bs bs' : List Block} {q q' : Nat → List Node}
    (r : Ready s bs q) (same : SameRest s s') (queued : Queued s'.heap s'.taskTbl bs' q')
    (tasks : ∀ p, ∀ n ∈ q' p, ∃ entry, s.backend.find n.ctx.taskId = some entry ∧
      entry.priority.toNat = p) : Ready s' bs' q' := by
  refine ⟨queued, ?_, ?_, ?_⟩
  · rw [same.backend]
    exact r.registry
  · rw [same.entryCount]
    exact r.count_pos
  · rw [same.backend]
    exact tasks

/-- The number of bytes of a payload that `place` measures blocks against. -/
def poolRoom (h : Heap) : Nat := (h.pools poolId).topOfHeap - (h.pools poolId).heapOfMemory

/-- Whether a post is taken, and the blocks of the pool then: its task is registered, its payload
is given, the block size fits in 16 bits, and the pool has room. -/
def accepts (s : Bus H X) (bs : List Block) (args : PostArgs) : Option (List Block) :=
  if (s.backend.find args.taskId).isSome ∧ (args.payload = none → args.payloadLen = 0) ∧
      16 + args.payloadLen.toNat ≤ 65535 ∧ (s.heap.pools poolId).active = true then
    place (poolRoom s.heap) ((16 + args.payloadLen.toNat + 3) / 4 * 4) bs
  else none

/-- Whether a post is taken depends on the registry and on the pool. -/
theorem accepts_congr {s s' : Bus H X} (same : SameRest s s') (bs : List Block) (args : PostArgs) :
    accepts s' bs args = accepts s bs args := by
  obtain ⟨hbase, htop, hactive⟩ := same.confined.fields
  unfold accepts poolRoom
  rw [same.backend, hbase, htop, hactive]

/-- A post of a given payload copies all its bytes. -/
theorem PostArgs.bytes_length {args : PostArgs} (given : args.payload = none → args.payloadLen = 0) :
    args.bytes.length = args.payloadLen.toNat := (args.delayedEvent 0 given).length_eq

/-- What a post may do: refuse the event and leave the queues as they are, or put it at the end of
the queue of its task's priority. -/
def Posted (s : Bus H X) (bs : List Block) (q : Nat → List Node) (args : PostArgs)
    (s' : Bus H X) (ret : Ret) : Prop :=
  SameRest s s' ∧
    ((accepts s bs args = none ∧ (∃ e, ret = .err e) ∧ s'.taskTbl = s.taskTbl ∧ Ready s' bs q) ∨
      ∃ bs' entry addr, accepts s bs args = some bs' ∧ ret = .ok ∧
        s.backend.find args.taskId = some entry ∧
        Ready s' bs' (Function.update q entry.priority.toNat
          (q entry.priority.toNat ++ [⟨addr, args.ctx⟩])))

/-- `emos_post` on an initialised bus takes the event or changes nothing. -/
theorem emosPost_spec {s : Bus H X} {bs : List Block} {q : Nat → List Node} (r : Ready s bs q)
    (args : PostArgs) (small : args.payloadLen.toNat + 16 < 2 ^ 32) :
    ∃ s' ret, emosPost s args = some (s', ret) ∧ Posted s bs q args s' ret := by
  have refused : ∀ e, emosPost s args = some (s, .err e) → accepts s bs args = none →
      ∃ s' ret, emosPost s args = some (s', ret) ∧ Posted s bs q args s' ret :=
    fun e hres hnone => ⟨s, .err e, hres, SameRest.refl s, .inl ⟨hnone, ⟨e, rfl⟩, rfl, r⟩⟩
  have hcount : s.entryCount ≠ 0 := Nat.pos_iff_ne_zero.mp r.count_pos
  cases hfind : s.backend.find args.taskId with
  | none =>
    refine refused .ENOENT ?_ ?_
    · unfold emosPost
      rw [if_neg hcount, hfind]
    · unfold accepts
      rw [if_neg (by rw [hfind]; simp)]
  | some entry =>
    obtain ⟨_, hprio, f, hf⟩ := r.registry.found _ _ hfind
    by_cases hnull : args.payloadLen ≠ 0 ∧ args.payload = none
    · refine refused .EINVAL ?_ ?_
      · unfold emosPost
        simp only [if_neg hcount, hfind]
        rw [if_pos hnull]
      · unfold accepts
        rw [if_neg fun h => hnull.1 (h.2.1 hnull.2)]
    · have given : args.payload = none → args.payloadLen = 0 := fun hp =>
        Classical.not_not.mp fun hl => hnull ⟨hl, hp⟩
      have hlen := PostArgs.bytes_length given
      have hwrap : wrap (4 + 12 + args.payloadLen.toNat) = 16 + args.payloadLen.toNat := by
        unfold wrap
        omega
      by_cases hbig : 16 + args.payloadLen.toNat > 65535
      · refine refused .ENOMEM ?_ ?_
        · unfold emosPost
          simp only [if_neg hcount, hfind]
          rw [if_neg hnull, if_neg (Nat.not_le.mpr hprio), hwrap, if_pos hbig]
        · unfold accepts
          rw [if_neg fun h => by omega]
      · obtain ⟨heap', head, node, bs', hnew, hplace, conf, hcase⟩ :=
          r.queued.append hprio args.ctx (by
            show 16 + args.bytes.length ≤ 65535
            omega)
        have hnew' : linklistNew s.heap poolId (s.taskTbl entry.priority.toNat)
            (16 + args.payloadLen.toNat) = some (heap', head, node) := by
          rw [← hlen]
          exact hnew
        change (s.heap.pools poolId).active = true → place (poolRoom s.heap)
          ((16 + args.bytes.length + 3) / 4 * 4) bs = _ at hplace
        rw [hlen] at hplace
        have hacc : (s.heap.pools poolId).active = true → accepts s bs args =
            if node = null then none else some bs' := by
          intro active
          unfold accepts
          rw [if_pos ⟨by rw [hfind]; rfl, given, Nat.not_lt.mp hbig, active⟩, hplace active]
        have hinactive : (s.heap.pools poolId).active = false → accepts s bs args = none := by
          intro inactive
          unfold accepts
          exact if_neg fun h => absurd (h.2.2.2.symm.trans inactive) (by simp)
        unfold emosPost
        simp only [if_neg hcount, hfind]
        rw [if_neg hnull, if_neg (Nat.not_le.mpr hprio), hwrap, if_neg hbig, hnew']
        rcases hcase with ⟨hnode, hhead, rfl, hq⟩ | ⟨hnode, hq⟩
        · -- the pool is exhausted
          have hnone : accepts s bs' args = none := by
            cases hactive : (s.heap.pools poolId).active with
            | true => rw [hacc hactive, if_pos hnode]
            | false => exact hinactive hactive
          have htbl : Function.update s.taskTbl entry.priority.toNat head = s.taskTbl := by
            rw [hhead]
            exact Function.update_eq_self ..
          have same : SameRest s { s with
              heap := heap', taskTbl := Function.update s.taskTbl entry.priority.toNat head } :=
            ⟨rfl, rfl, rfl, rfl, rfl, rfl, conf⟩
          refine ⟨_, _, if_pos hnode, same, .inl ⟨hnone, ⟨_, rfl⟩, htbl, ?_⟩⟩
          exact r.of_queued same (by dsimp only; rw [htbl]; exact hq) r.tasks
        · have hmem : ⟨node, args.ctx⟩ ∈ Function.update q entry.priority.toNat
              (q entry.priority.toNat ++ [⟨node, args.ctx⟩]) entry.priority.toNat :=
            Queued.mem_update_append.mpr (.inr ⟨rfl, rfl⟩)
          have hactive := conf.fields.2.2.symm.trans (hq.active_of_mem hmem)
          have hres : accepts s bs args = some bs' := by rw [hacc hactive, if_neg hnode]
          have same : SameRest s (eventSignal { s with
              heap := { heap' with mem := writeCtx heap'.mem node args.ctx },
              taskTbl := Function.update s.taskTbl entry.priority.toNat head }) := by
            obtain ⟨t, ht, hfits⟩ := hq.room _ _ hmem
            exact ⟨rfl, rfl, rfl, rfl, rfl, rfl, Queued.confined_write_ctx conf hq.valid ht hfits⟩
          refine ⟨_, _, if_neg hnode, same, .inr ⟨bs', entry, node, hres, rfl, hfind, ?_⟩⟩
          refine r.of_queued same hq fun p n hn => ?_
          rcases Queued.mem_update_append.mp hn with hn | ⟨rfl, rfl⟩
          · exact r.tasks p n hn
          · exact ⟨entry, hfind, rfl⟩

/-- `rtbus_post` differs from `emos_post` in the code for an unknown task only. -/
theorem rtbusPost_spec {s : Bus H X} {bs : List Block} {q : Nat → List Node} (r : Ready s bs q)
    (args : PostArgs) (small : args.payloadLen.toNat + 16 < 2 ^ 32) :
    ∃ s' ret, rtbusPost s args = some (s', ret) ∧ Posted s bs q args s' ret := by
  obtain ⟨s', ret, hres, same, hcase⟩ := emosPost_spec r args small
  unfold rtbusPost
  rw [hres]
  cases ret with
  | ok => exact ⟨s', .ok, rfl, same, hcase⟩
  | err e =>
    have hnone : ∀ e', Posted s bs q args s' (.err e') := by
      intro e'
      rcases hcase with ⟨hacc, _, hr⟩ | ⟨_, _, _, _, hok, _⟩
      · exact ⟨same, .inl ⟨hacc, ⟨e', rfl⟩, hr⟩⟩
      · cases hok
    cases e with
    | ENOENT => exact ⟨s', _, rfl, hnone _⟩
    | _ => exact ⟨s', _, rfl, hnone _⟩

/-! ## Dispatching -/

/-- Taking a node out of a queue. -/
theorem removeNode_spec {s : Bus H X} {bs : List Block} {q : Nat → List Node} (r : Ready s bs q)
    {p : Nat} {n : Node} {rest : List Node} (hq : q p = n :: rest) :
    ∃ s' bs', removeNode s p n.addr = some s' ∧ SameRest s s' ∧
      Ready s' bs' (Function.update q p rest) := by
  have hsplit : q p = [] ++ n :: rest := hq
  obtain ⟨heap', head, bs', hres, conf, hq'⟩ := r.queued.remove hsplit
  unfold removeNode
  rw [hres]
  refine ⟨_, bs', rfl, ⟨rfl, rfl, rfl, rfl, rfl, rfl, conf⟩, ?_⟩
  refine r.of_queued ⟨rfl, rfl, rfl, rfl, rfl, rfl, conf⟩ hq' ?_
  refine (Function.forall_update_iff q fun p l => ∀ m ∈ l, ∃ entry,
    s.backend.find m.ctx.taskId = some entry ∧ entry.priority.toNat = p).mpr
    ⟨fun m hm => r.tasks p m ?_, fun p' _ => r.tasks p'⟩
  rw [hq]
  exact List.mem_cons_of_mem _ hm

/-- The scan over the priorities stops at the first queue that is not empty. -/
theorem processQueuedFrom_of_first (handle : Handle H X) {s : Bus H X} {p : Nat}
    (hp : s.taskTbl p ≠ null) {left start : Nat} (hstart : start ≤ p) (hleft : p < start + left)
    (first : ∀ p', start ≤ p' → p' < p → s.taskTbl p' = null) :
    processQueuedFrom handle s left start = dispatchFirst handle s p := by
  induction left generalizing start with
  | zero => omega
  | succ left ih =>
    unfold processQueuedFrom
    by_cases h : start = p
    · subst h
      rw [if_pos hp]
    · rw [if_neg (by rw [first start (Nat.le_refl _) (by omega)]; simp)]
      exact ih (by omega) (by omega) fun p' h1 h2 => first p' (by omega) h2

/-- With empty queues nothing is dispatched. -/
theorem processQueuedFrom_of_empty (handle : Handle H X) {s : Bus H X} {left start : Nat}
    (empty : ∀ p, p < start + left → s.taskTbl p = null) :
    processQueuedFrom handle s left start = some (s, .idle) := by
  induction left generalizing start with
  | zero => rfl
  | succ left ih =>
    unfold processQueuedFrom
    rw [if_neg (by rw [empty start (by omega)]; simp)]
    exact ih fun p h => empty p (by omega)

/-- The first event of the first queue that is not empty is handed to its task, and taken out once
the handler has returned. The handler may post: the event is still the first of its queue then. -/
theorem emosProcessQueuedEvent_dispatches (handle : Handle H X) {s s₁ : Bus H X}
    {bs bs₁ : List Block} {q q₁ : Nat → List Node} (r : Ready s bs q) {p : Nat} {n : Node}
    {rest more : List Node} {entry : Entry H} {f : H} (first : ∀ p' < p, q p' = [])
    (hq : q p = n :: rest) (found : s.backend.find n.ctx.taskId = some entry)
    (handler : entry.taskEntry = some f) (call : handle f n.ctx s = some s₁)
    (r₁ : Ready s₁ bs₁ q₁) (hq₁ : q₁ p = n :: more) :
    ∃ s' bs', emosProcessQueuedEvent handle s = some (s', .dispatched entry n.ctx) ∧
      SameRest s₁ s' ∧ Ready s' bs' (Function.update q₁ p more) := by
  have hp : p < taskPriorityNumber := by
    refine Nat.lt_of_not_le fun hle => ?_
    rw [r.queued.high p hle] at hq
    cases hq
  have haddr := r.queued.head_eq hq
  have hnull : s.taskTbl p ≠ null := by
    rw [Ne, r.queued.head_eq_zero_iff, hq]
    simp
  have hread : readCtx s.heap.mem n.addr = n.ctx :=
    (r.queued.held p n (by rw [hq]; simp)).readCtx_eq
  obtain ⟨s', bs', hrem, same, r'⟩ := removeNode_spec r₁ hq₁
  refine ⟨s', bs', ?_, same, r'⟩
  unfold emosProcessQueuedEvent
  rw [processQueuedFrom_of_first handle hnull (Nat.zero_le _) (by omega)
    fun p' _ h => (r.queued.head_eq_zero_iff p').mpr (first p' h)]
  unfold dispatchFirst
  simp only [haddr, hread, found, handler, call, hrem, Option.map_some]

/-- With empty queues `emos_process_queued_event` returns 0. -/
theorem emosProcessQueuedEvent_idle (handle : Handle H X) {s : Bus H X} {bs : List Block}
    {q : Nat → List Node} (r : Ready s bs q) (empty : ∀ p, q p = []) :
    emosProcessQueuedEvent handle s = some (s, .idle) :=
  processQueuedFrom_of_empty handle fun p _ => (r.queued.head_eq_zero_iff p).mpr (empty p)

/-- The poll stage either calls nobody, or calls the handler of an entry whose `always` flag is
set. -/
theorem pollFrom_cases (handle : Handle H X) (s : Bus H X) (left i : Nat) :
    pollFrom handle s left i = some (s, .idle) ∨
      ∃ entry f index, s.backend.getByIndex index = some entry ∧ entry.always = true ∧
        entry.taskEntry = some f ∧ pollFrom handle s left i =
          (handle f { taskId := entry.taskId, id := sysEvt sysPoll, payload := [] } s).map fun s =>
            ({ s with pollNextIndex := (index + 1) % s.entryCount }, .polled entry) := by
  induction left generalizing i with
  | zero => exact .inl rfl
  | succ left ih =>
    unfold pollFrom
    cases hget : s.backend.getByIndex ((s.pollNextIndex + i) % s.entryCount) with
    | none =>
      left
      simp only [hget]
    | some entry =>
      simp only [hget]
      cases halways : entry.always with
      | false => exact ih (i + 1)
      | true =>
        cases htask : entry.taskEntry with
        | none => exact ih (i + 1)
        | some f =>
          exact .inr ⟨entry, f, _, hget, halways, htask, rfl⟩

end Rtbus.Emos
