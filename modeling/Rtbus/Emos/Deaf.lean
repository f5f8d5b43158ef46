import Rtbus.Emos.Runs

/-!
# A bus that takes nothing

After `rtbus_init` has failed the program goes on: it may post, post with a delay, and call
`rtbus_process`, whose hook and handlers may post in turn. `Deaf` says why none of these posts is
taken: no task is registered, or the pool has no block and cannot give even the smallest one. Every
operation keeps it, so it holds until the next `rtbus_init`, and with it every post that is noted in
the log has failed.
-/

namespace Rtbus.Emos

open Rtbus.Pool Rtbus.Tiling

variable {H X : Type} {payloadMax : Nat}

/-- The room that the smallest block takes: a header, and four bytes. -/
def smallestBlock : Nat := 12

/-- Nothing is queued, and no post can be. -/
structure Deaf (s : Bus H X) : Prop where
  empty : ∀ p, s.taskTbl p = null
  refuses : s.entryCount = 0 ∨ (Valid s.heap poolId [] ∧ poolRoom s.heap < smallestBlock)

/-- Every post noted in a log has failed. -/
def AllRefused (log : Log H) : Prop :=
  ∀ args ret, LogEntry.did (.post args) ret ∈ log → ∃ e, ret = .err e

/-- What was noted between two states are failed posts and other entries. -/
def Refused (s s' : Bus H (Log H)) : Prop := ∃ log, s'.rest = s.rest ++ log ∧ AllRefused log

/-- However the program goes on, nothing is ever queued, every post fails, and every operation
returns. -/
def StaysDeaf (payloadMax : Nat) (s : Bus H (Log H)) : Prop :=
  ∀ s', Run.Reachable (· = s) (fun s₁ op s₂ => Op.run payloadMax op s₁ = some s₂) s' →
    (∀ p, s'.taskTbl p = null) ∧ Refused s s' ∧ ∀ op : Op, ∃ s'', op.run payloadMax s' = some s''

theorem Refused.of_rest {s s' : Bus H (Log H)} (h : s'.rest = s.rest) : Refused s s' :=
  ⟨[], by rw [h, List.append_nil], fun _ _ h => by cases h⟩

theorem Refused.trans {s₁ s₂ s₃ : Bus H (Log H)} (h : Refused s₁ s₂) (h' : Refused s₂ s₃) :
    Refused s₁ s₃ := by
  obtain ⟨log, hrest, refused⟩ := h
  obtain ⟨log', hrest', refused'⟩ := h'
  refine ⟨log ++ log', by rw [hrest', hrest, List.append_assoc], fun args ret hmem => ?_⟩
  rcases List.mem_append.mp hmem with hmem | hmem
  · exact refused args ret hmem
  · exact refused' args ret hmem

/-- One entry more in the log. -/
theorem Refused.note {s s' : Bus H (Log H)} (h : s'.rest = s.rest) {e : LogEntry H}
    (refused : AllRefused [e]) : Refused s (note s' e) :=
  ⟨[e], by
    show s'.rest ++ [e] = _
    rw [h], refused⟩

namespace Deaf

/-- A deaf bus is one whatever the log, the clock and the slots are. -/
theorem congr {Y : Type} {s : Bus H X} {s' : Bus H Y} (d : Deaf s) (heap : s'.heap = s.heap)
    (tbl : s'.taskTbl = s.taskTbl) (count : s'.entryCount = s.entryCount) : Deaf s' := by
  refine ⟨?_, ?_⟩
  · rw [tbl]
    exact d.empty
  · rw [heap, count]
    exact d.refuses

/-- An empty pool without room has no block to give. -/
theorem place_eq_none {room n : Nat} (h : room < smallestBlock) (four : 4 ≤ n) :
    place room n [] = none := by
  unfold place
  rw [extent_nil, if_neg (by change room < 12 at h; omega)]
  rfl

/-- The list of a queue that is empty gets no node from such a pool. -/
theorem linklistNew_refused {h : Heap} (v : Valid h poolId []) (room : poolRoom h < smallestBlock)
    {n : Nat} (small : n ≤ 65535) :
    ∃ h', linklistNew h poolId null n = some (h', null, null) ∧ Valid h' poolId [] ∧
      poolRoom h' = poolRoom h := by
  by_cases four : n < linkSize
  · exact ⟨h, if_pos four, v, rfl⟩
  · change ¬ n < 4 at four
    have none : Nodes h poolId [] null [] := ⟨rfl, by simp, .nil⟩
    obtain ⟨h', source, node, bs, hnew, v', conf, hplace, hcase⟩ :=
      linklistNew_spec v none n (Nat.not_lt.mp four) (by unfold NoCarry; omega)
    obtain ⟨hbase, htop, hactive⟩ := conf.fields
    have hroom : poolRoom h' = poolRoom h := by
      unfold poolRoom
      rw [hbase, htop]
    rcases hcase with ⟨rfl, rfl, rfl, _⟩ | ⟨hnode, l₁, l₂, size, _, _, hlive, _⟩
    · exact ⟨h', hnew, v', hroom⟩
    · -- a node would be a live payload of an active pool that had room for it
      cases hact : (h.pools poolId).active with
      | true =>
        have hsome := hplace hact
        rw [if_neg hnode] at hsome
        cases hsome.symm.trans (place_eq_none room (by omega))
      | false =>
        have hempty := v'.empty (hactive.trans hact)
        have hmem : (node, size) ∈ h'.live poolId bs := by
          rw [hlive]
          exact List.mem_append_right _ List.mem_cons_self
        unfold Heap.live at hmem
        rw [hempty] at hmem
        cases hmem

/-- A post on a deaf bus fails. -/
theorem emosPost {s : Bus H X} (d : Deaf s) (args : PostArgs) :
    ∃ s' e, Emos.emosPost s args = some (s', .err e) ∧ Deaf s' ∧ s'.rest = s.rest := by
  have same : ∀ e, ∃ s' e', some (s, Ret.err e) = some (s', .err e') ∧ Deaf s' ∧ s'.rest = s.rest :=
    fun e => ⟨s, e, rfl, d, rfl⟩
  unfold Emos.emosPost
  rcases d.refuses with hcount | ⟨v, room⟩
  · rw [if_pos hcount]
    exact same _
  · split
    · exact same _
    · split
      · exact same _
      · rename_i entry _
        split
        · exact same _
        · split
          · exact same _
          · dsimp only
            split
            · exact same _
            · rename_i hsmall
              obtain ⟨h', hnew, v', hroom⟩ := linklistNew_refused v room (Nat.not_lt.mp hsmall)
              rw [d.empty, hnew]
              refine ⟨_, .ENOMEM, if_pos rfl, ⟨fun p => ?_, .inr ⟨v', ?_⟩⟩, rfl⟩
              · by_cases hp : p = entry.priority.toNat
                · rw [hp]
                  exact Function.update_self ..
                · exact (Function.update_of_ne hp ..).trans (d.empty p)
              · show poolRoom h' < _
                rw [hroom]
                exact room

theorem rtbusPost {s : Bus H X} (d : Deaf s) (args : PostArgs) :
    ∃ s' e, Emos.rtbusPost s args = some (s', .err e) ∧ Deaf s' ∧ s'.rest = s.rest := by
  obtain ⟨s', e, hres, d', hrest⟩ := d.emosPost args
  unfold Emos.rtbusPost
  rw [hres]
  cases e with
  | ENOENT => exact ⟨s', _, rfl, d', hrest⟩
  | _ => exact ⟨s', _, rfl, d', hrest⟩

/-- An act on a deaf bus. -/
theorem run {s : Bus H (Log H)} (d : Deaf s) (a : Act) :
    ∃ s', a.run payloadMax s = some s' ∧ Deaf s' ∧ Refused s s' := by
  have other : ∀ {s₁ : Bus H (Log H)} (ret : Ret), (∀ args, a ≠ .post args) → Deaf s₁ →
      s₁.rest = s.rest → Deaf (note s₁ (.did a ret)) ∧ Refused s (note s₁ (.did a ret)) := by
    refine fun ret hpost d₁ hrest => ⟨d₁.congr rfl rfl rfl, .note hrest fun args r hmem => ?_⟩
    cases List.mem_singleton.mp hmem
    exact absurd rfl (hpost args)
  unfold Act.run
  cases a with
  | post args =>
    obtain ⟨s₁, e, hres, d₁, hrest⟩ := d.rtbusPost args
    simp only [Act.perform, hres]
    refine ⟨_, rfl, d₁.congr rfl rfl rfl, .note hrest fun args r hmem => ?_⟩
    cases List.mem_singleton.mp hmem
    exact ⟨e, rfl⟩
  | advance ms =>
    exact ⟨_, rfl, other _ (fun _ h => by cases h) (d.congr rfl rfl rfl) rfl⟩
  | postDelay args delayMs =>
    have hdelay : ∃ s₁ ret, rtbusPostDelay payloadMax s args delayMs = some (s₁, ret) ∧ Deaf s₁ ∧
        s₁.rest = s.rest := by
      unfold rtbusPostDelay
      split
      · obtain ⟨s₁, e, hres, d₁, hrest⟩ := d.rtbusPost args
        exact ⟨s₁, .err e, hres, d₁, hrest⟩
      · split
        · exact ⟨s, _, rfl, d, rfl⟩
        · split
          · exact ⟨s, _, rfl, d, rfl⟩
          · split
            · exact ⟨s, _, rfl, d, rfl⟩
            · exact ⟨_, _, rfl, d.congr rfl rfl rfl, rfl⟩
    obtain ⟨s₁, ret, hres, d₁, hrest⟩ := hdelay
    simp only [Act.perform, hres]
    exact ⟨_, rfl, other _ (fun _ h => by cases h) d₁ hrest⟩

theorem runActs {s : Bus H (Log H)} (d : Deaf s) (acts : List Act) :
    ∃ s', Emos.runActs payloadMax acts s = some s' ∧ Deaf s' ∧ Refused s s' := by
  induction acts generalizing s with
  | nil => exact ⟨s, rfl, d, .of_rest rfl⟩
  | cons a as ih =>
    obtain ⟨s₁, hrun, d₁, refused⟩ := d.run a
    obtain ⟨s₂, hrun₂, d₂, refused₂⟩ := ih d₁
    refine ⟨s₂, ?_, d₂, refused.trans refused₂⟩
    unfold Emos.runActs
    rw [hrun]
    exact hrun₂

/-- Due events stay in their slots. -/
theorem moveDueFrom {s : Bus H X} (d : Deaf s) (nowMs : UInt32) (slots : List DelayedEvent) :
    ∃ s' slots' ret, Emos.moveDueFrom nowMs slots s = some (s', slots', ret) ∧ Deaf s' ∧
      s'.rest = s.rest := by
  induction slots with
  | nil => exact ⟨s, [], .ok, rfl, d, rfl⟩
  | cons event slots ih =>
    unfold Emos.moveDueFrom
    by_cases hdue : event.used = false ∨ dueReached nowMs event.dueMs = false
    · obtain ⟨s', slots', ret, hres, d', hrest⟩ := ih
      rw [if_pos hdue, hres]
      exact ⟨s', _, ret, rfl, d', hrest⟩
    · obtain ⟨s', e, hres, d', hrest⟩ := d.emosPost event.args
      rw [if_neg hdue, hres]
      exact ⟨s', _, .err e, rfl, d', hrest⟩

/-- With empty queues a task may be polled, and its handler may try to post. -/
theorem dispatchOrPoll {s : Bus H (Log H)} (d : Deaf s) (handler : List Act) :
    ∃ s' outcome, Emos.dispatchOrPoll (handlerOf payloadMax handler) s = some (s', outcome) ∧
      Deaf s' ∧ Refused s s' := by
  have hidle : emosProcessQueuedEvent (handlerOf payloadMax handler) s = some (s, .idle) :=
    processQueuedFrom_of_empty _ fun p _ => d.empty p
  unfold Emos.dispatchOrPoll
  rw [hidle]
  unfold emosProcessPollEvent
  rcases pollFrom_cases (handlerOf payloadMax handler) s s.entryCount 0 with
    hnone | ⟨entry, f, index, _, _, _, hpoll⟩
  · exact ⟨s, .idle, hnone, d, .of_rest rfl⟩
  · obtain ⟨ctx, hctx⟩ : ∃ ctx : Ctx,
        { taskId := entry.taskId, id := sysEvt sysPoll, payload := [] } = ctx := ⟨_, rfl⟩
    rw [hctx] at hpoll
    have called : Refused s (note s (.called f ctx)) := .note rfl fun args ret hmem => by
      cases List.mem_singleton.mp hmem
    obtain ⟨s', hrun, d', refused⟩ := (d.congr rfl rfl rfl : Deaf (note s (.called f ctx))).runActs
      handler
    obtain ⟨log, hrest, hlog⟩ := called.trans refused
    refine ⟨{ s' with pollNextIndex := (index + 1) % s'.entryCount }, .polled entry, ?_,
      d'.congr rfl rfl rfl, log, hrest, hlog⟩
    show pollFrom _ s s.entryCount 0 = _
    rw [hpoll, show handlerOf payloadMax handler f ctx s = some s' from hrun]
    rfl

/-- A call of `rtbus_process` on a deaf bus. -/
theorem process {s : Bus H (Log H)} (d : Deaf s) (hook handler : List Act) :
    ∃ s' outcome, processWith payloadMax hook handler s = some (s', outcome) ∧ Deaf s' ∧
      Refused s s' := by
  obtain ⟨s₁, slots, ret, hres, d₁, hrest⟩ := d.moveDueFrom (uptime32 s) s.delayed
  have d₁' : Deaf { s₁ with delayed := slots } := d₁.congr rfl rfl rfl
  unfold processWith rtbusProcess moveDueEvents
  rw [hres]
  cases ret with
  | err e => exact ⟨_, _, rfl, d₁', .of_rest hrest⟩
  | ok =>
    dsimp only
    unfold emosProcess
    split
    · exact ⟨_, _, rfl, d₁', .of_rest hrest⟩
    · obtain ⟨s₂, hrun, d₂, refused⟩ : ∃ s', Emos.runActs payloadMax hook
          { s₁ with delayed := slots } = some s' ∧ Deaf s' ∧ Refused { s₁ with delayed := slots } s' :=
        d₁'.runActs hook
      obtain ⟨s₃, outcome, hprocess, d₃, refused₃⟩ :=
        d₂.dispatchOrPoll handler
      have before : Refused s { s₁ with delayed := slots } := .of_rest hrest
      refine ⟨s₃, outcome, ?_, d₃, before.trans (refused.trans refused₃)⟩
      simp only [hookOf, hrun, Option.map_some]
      exact hprocess

/-- An operation on a deaf bus. -/
theorem op {s : Bus H (Log H)} (d : Deaf s) (o : Op) :
    ∃ s', o.run payloadMax s = some s' ∧ Deaf s' ∧ Refused s s' := by
  cases o with
  | act a => exact d.run a
  | process hook handler =>
    obtain ⟨s', outcome, hres, d', refused⟩ : ∃ s' outcome, processWith payloadMax hook handler s =
        some (s', outcome) ∧ Deaf s' ∧ Refused s s' := d.process hook handler
    refine ⟨s', ?_, d', refused⟩
    simp only [Op.run, hres, Option.map_some]

/-- A deaf bus stays deaf. -/
theorem stays {s : Bus H (Log H)} (d : Deaf s) : StaysDeaf payloadMax s := by
  intro s' h
  have inv : Deaf s' ∧ Refused s s' := by
    refine Run.Reachable.invariant (I := fun s' => Deaf s' ∧ Refused s s') ?_ ?_ h
    · rintro s' rfl
      exact ⟨d, .of_rest rfl⟩
    · rintro s₁ o s₂ ⟨d₁, refused⟩ hrun
      obtain ⟨s₂', hrun', d₂, refused₂⟩ := d₁.op o
      cases hrun'.symm.trans hrun
      exact ⟨d₂, refused.trans refused₂⟩
  refine ⟨inv.1.empty, inv.2, fun o => ?_⟩
  obtain ⟨s'', hrun, _⟩ := inv.1.op o
  exact ⟨s'', hrun⟩

end Deaf

end Rtbus.Emos
