import Rtbus.Emos.Refinement

/-!
# Progress of the scheduler

In every state that a successful initialisation and any operations lead to, delayed posts included,
a call of `rtbus_process` with a queued event dispatches one, exactly if all delayed events that are
due can be moved into the task queues. `DueMovable` says that of the state before the call: every
due event's task is registered, and the pool, filled in slot order as the allocator places blocks,
has room for each of them.

If it fails, the call returns the error of `emos_post` before anything is dispatched; the slot stays
used, so the next call meets the same event again.
-/

namespace Rtbus.Emos

open Rtbus.Pool Rtbus.Tiling

variable {H X : Type} {payloadMax : Nat}

/-- The slots whose events are due. -/
def dueSlots (nowMs : UInt32) (slots : List DelayedEvent) : List DelayedEvent :=
  slots.filter fun event => event.used && dueReached nowMs event.dueMs

/-- The blocks of the pool after a post for each of these events has been taken, if all are. -/
def acceptsAll (s : Bus H X) (bs : List Block) (events : List DelayedEvent) : Option (List Block) :=
  events.foldlM (fun bs event => accepts s bs event.args) bs

/-- All delayed events that are due can be moved: their tasks are registered, their payloads are
given, none of them is too large for a block and the pool has room for them. -/
def DueMovable (s : Bus H X) : Prop :=
  ∃ bs, Valid s.heap poolId bs ∧
    (acceptsAll s bs (dueSlots (uptime32 s) s.delayed)).isSome = true

theorem acceptsAll_congr {s s' : Bus H X} (same : SameRest s s') (bs : List Block)
    (events : List DelayedEvent) : acceptsAll s' bs events = acceptsAll s bs events := by
  unfold acceptsAll
  rw [show (fun bs (event : DelayedEvent) => accepts s' bs event.args) =
    fun bs event => accepts s bs event.args from
      funext fun bs => funext fun event => accepts_congr same bs event.args]

/-- Moving the due events of some slots succeeds exactly if posts are taken for all of them. -/
theorem moveDueFrom_spec (nowMs : UInt32) {s : Bus H X} {bs : List Block} {q : Nat → List Node}
    (r : Ready s bs q) (slots : List DelayedEvent)
    (fit : ∀ event ∈ slots, event.payloadLen.toNat + 16 < 2 ^ 32) :
    ∃ s' slots' ret bs' q', moveDueFrom nowMs slots s = some (s', slots', ret) ∧
      SameRest s s' ∧ Ready s' bs' q' ∧ Grown q q' ∧
      (∀ event ∈ slots', event.payloadLen.toNat + 16 < 2 ^ 32) ∧
      (ret = .ok ↔ (acceptsAll s bs (dueSlots nowMs slots)).isSome = true) := by
  induction slots generalizing s bs q with
  | nil =>
    exact ⟨s, [], .ok, bs, q, rfl, SameRest.refl s, r, Grown.refl q, fit, by simp [acceptsAll,
      dueSlots]⟩
  | cons event rest ih =>
    have hfit := fit event (List.mem_cons_self ..)
    have frest : ∀ e ∈ rest, e.payloadLen.toNat + 16 < 2 ^ 32 :=
      fun e he => fit e (List.mem_cons_of_mem _ he)
    have keep : ∀ (e : DelayedEvent) (es : List DelayedEvent), e.payloadLen.toNat + 16 < 2 ^ 32 →
        (∀ x ∈ es, x.payloadLen.toNat + 16 < 2 ^ 32) →
        ∀ x ∈ e :: es, x.payloadLen.toNat + 16 < 2 ^ 32 := by
      intro e es he hes x hx
      rcases List.mem_cons.mp hx with rfl | hx
      · exact he
      · exact hes x hx
    unfold moveDueFrom
    by_cases hdue : event.used = false ∨ dueReached nowMs event.dueMs = false
    · obtain ⟨s', slots', ret, bs', q', hres, same, r', g, hfit', hok⟩ := ih r frest
      refine ⟨s', event :: slots', ret, bs', q', ?_, same, r', g, keep _ _ hfit hfit', ?_⟩
      · rw [if_pos hdue, hres]
      · rw [dueSlots, List.filter_cons_of_neg (by
          rcases hdue with h | h
          · simp [h]
          · simp [h])]
        exact hok
    · have hdue' : (event.used && dueReached nowMs event.dueMs) = true := by
        simpa [not_or] using hdue
      obtain ⟨s₁, ret, hres, posted⟩ := emosPost_spec r event.args hfit
      have hslots : dueSlots nowMs (event :: rest) = event :: dueSlots nowMs rest :=
        List.filter_cons_of_pos hdue'
      rw [if_neg hdue, hres, hslots]
      obtain ⟨same, hcase⟩ := posted
      rcases hcase with ⟨hnone, ⟨e, rfl⟩, _, r₁⟩ | ⟨bs₁, entry, addr, hsome, rfl, _, r₁⟩
      · refine ⟨s₁, event :: rest, .err e, bs, q, rfl, same, r₁, Grown.refl q, fit, ?_⟩
        simp [acceptsAll, hnone]
      · obtain ⟨s₂, slots', ret, bs₂, q₂, hres₂, same₂, r₂, g₂, hfit', hok⟩ := ih r₁ frest
        refine ⟨s₂, DelayedEvent.zero :: slots', ret, bs₂, q₂, ?_, same.trans same₂, r₂,
          (grown_append _ _ _).trans g₂, keep _ _ (show 0 + 16 < 2 ^ 32 by decide) hfit', ?_⟩
        · simp only [hres₂]
        · rw [hok, acceptsAll_congr same]
          simp [acceptsAll, hsome]

/-- The stages behind the hook dispatch an event exactly if one is queued. -/
theorem dispatchOrPoll_spec (payloadMax : Nat) {s : Bus H (Log H)} {bs : List Block}
    {q : Nat → List Node}
    (r : Ready s bs q) (slots : SlotsFit s) (handler : List Act) (fits : ∀ a ∈ handler, a.Fits) :
    ∃ s' outcome bs' q', dispatchOrPoll (handlerOf payloadMax handler) s = some (s', outcome) ∧
      Ready s' bs' q' ∧ SlotsFit s' ∧
      ((∃ entry ctx, outcome = .dispatched entry ctx) ↔ ∃ p, q p ≠ []) := by
  have hcall : ∀ (f : H) (ctx : Ctx), ∃ s₂ bs₂ q₂,
      handlerOf payloadMax handler f ctx s = some s₂ ∧ Ready s₂ bs₂ q₂ ∧ Grown q q₂ ∧
      SlotsFit s₂ := by
    intro f ctx
    obtain ⟨s₂, bs₂, q₂, hrun, kept⟩ := runActs_spec payloadMax
      (s := note s (.called f ctx)) (r.congr rfl rfl rfl rfl) handler fits
    exact ⟨s₂, bs₂, q₂, hrun, kept.ready, kept.grown, kept.slots slots⟩
  unfold dispatchOrPoll
  by_cases hq : ∃ p, q p ≠ []
  · obtain ⟨p₀, hp₀⟩ := hq
    obtain ⟨p, n, rest, hn, first⟩ := exists_first hp₀
    obtain ⟨entry, hfind, _⟩ := r.tasks p n (by rw [hn]; exact List.mem_cons_self ..)
    obtain ⟨_, _, f, htask⟩ := r.registry.found _ _ hfind
    obtain ⟨s₂, bs₂, q₂, hrun, r₂, g₂, slots₂⟩ := hcall f n.ctx
    obtain ⟨more, hmore⟩ := g₂ p
    rw [hn, List.cons_append] at hmore
    obtain ⟨s₃, bs₃, hres, same, r₃⟩ := emosProcessQueuedEvent_dispatches
      (handlerOf payloadMax handler) r first hn hfind htask hrun r₂ hmore.symm
    refine ⟨s₃, .dispatched entry n.ctx, bs₃, _, by rw [hres], r₃, ?_,
      iff_of_true ⟨entry, n.ctx, rfl⟩ ⟨p₀, hp₀⟩⟩
    unfold SlotsFit
    rw [same.delayed]
    exact slots₂
  · have hempty : ∀ p, q p = [] := fun p => Classical.not_not.mp fun h => hq ⟨p, h⟩
    rw [emosProcessQueuedEvent_idle _ r hempty]
    dsimp only
    rcases pollFrom_cases (handlerOf payloadMax handler) s s.entryCount 0 with
      hidle | ⟨entry, f, index, _, _, _, hpoll⟩
    · refine ⟨s, .idle, bs, q, hidle, r, slots, iff_of_false ?_ hq⟩
      rintro ⟨_, _, h⟩
      cases h
    · obtain ⟨s₂, bs₂, q₂, hrun, r₂, _, slots₂⟩ := hcall f
        { taskId := entry.taskId, id := sysEvt sysPoll, payload := [] }
      refine ⟨{ s₂ with pollNextIndex := (index + 1) % s₂.entryCount }, .polled entry, bs₂, q₂, ?_,
        r₂.congr rfl rfl rfl rfl, slots₂, iff_of_false ?_ hq⟩
      · unfold emosProcessPollEvent
        rw [hpoll, hrun]
        rfl
      · rintro ⟨_, _, h⟩
        cases h

/-- `rtbus_process` returns and keeps the bus ready; with an event queued it dispatches one exactly
if all due events can be moved. -/
theorem processWith_spec (payloadMax : Nat) {s : Bus H (Log H)} {bs : List Block}
    {q : Nat → List Node}
    (r : Ready s bs q) (slots : SlotsFit s) {hook handler : List Act}
    (fits : ∀ a ∈ hook ++ handler, a.Fits) :
    ∃ s' outcome bs' q', processWith payloadMax hook handler s = some (s', outcome) ∧
      Ready s' bs' q' ∧ SlotsFit s' ∧
      ((∃ p, q p ≠ []) → ((∃ entry ctx, outcome = .dispatched entry ctx) ↔ DueMovable s)) := by
  have hmovable : DueMovable s ↔
      (acceptsAll s bs (dueSlots (uptime32 s) s.delayed)).isSome = true := by
    constructor
    · rintro ⟨bs', v, h⟩
      rwa [r.queued.valid.tiles.unique v.tiles]
    · exact fun h => ⟨bs, r.queued.valid, h⟩
  obtain ⟨s₁, slots₁, ret, bs₁, q₁, hres, same, r₁, g₁, hfit₁, hok⟩ :=
    moveDueFrom_spec (uptime32 s) r s.delayed slots
  unfold processWith rtbusProcess moveDueEvents
  rw [hres]
  cases ret with
  | err e =>
    refine ⟨{ s₁ with delayed := slots₁ }, .failed e, bs₁, q₁, rfl, r₁.congr rfl rfl rfl rfl, hfit₁,
      fun _ => iff_of_false ?_ fun h => ?_⟩
    · rintro ⟨_, _, h⟩
      cases h
    · cases hok.mpr (hmovable.mp h)
  | ok =>
    have hcount : s₁.entryCount ≠ 0 := Nat.pos_iff_ne_zero.mp r₁.count_pos
    obtain ⟨s₂, bs₂, q₂, hrun, kept⟩ := runActs_spec payloadMax
      (s := { s₁ with delayed := slots₁ }) (r₁.congr rfl rfl rfl rfl) hook
      fun a ha => fits a (List.mem_append_left _ ha)
    obtain ⟨s₃, outcome, bs₃, q₃, hprocess, r₃, slots₃, hdispatch⟩ :=
      dispatchOrPoll_spec payloadMax kept.ready (kept.slots hfit₁) handler
        fun a ha => fits a (List.mem_append_right _ ha)
    refine ⟨s₃, outcome, bs₃, q₃, ?_, r₃, slots₃, fun hq => ?_⟩
    · unfold emosProcess hookOf
      simp only [if_neg hcount, hrun, Option.map_some]
      exact hprocess
    · refine iff_of_true (hdispatch.mpr ?_) (hmovable.mpr (hok.mp rfl))
      obtain ⟨p, hp⟩ := hq
      obtain ⟨more, hmore⟩ := (g₁.trans kept.grown) p
      refine ⟨p, fun h => hp ?_⟩
      rw [h] at hmore
      exact (List.append_eq_nil_iff.mp hmore).1

/-! ## Reachable states -/

/-- A successful initialisation of whatever bus there was, on a pool in the address space. -/
def Bus.Start (s₀ : Bus H (Log H)) : Prop :=
  ∃ (s : Bus H (Log H)) (poolAddr poolSize : Nat) (entryTbl : Option (EntryTable H)),
    poolAddr + poolSize ≤ 2 ^ 32 ∧ rtbusInit s poolAddr poolSize entryTbl = some (s₀, .ok)

/-- An operation whose block sizes do not wrap `size_t`, and its outcome. -/
def Bus.AnyStep (payloadMax : Nat) (s : Bus H (Log H)) (op : Op) (s' : Bus H (Log H)) : Prop :=
  (∀ a ∈ op.acts, a.Fits) ∧ op.run payloadMax s = some s'

/-- The states that any operations lead to. -/
abbrev Bus.Reachable (payloadMax : Nat) : Bus H (Log H) → Prop :=
  Run.Reachable Bus.Start (Bus.AnyStep payloadMax)

/-- Every reachable bus is ready. -/
theorem reachable_ready {s : Bus H (Log H)} (h : s.Reachable payloadMax) :
    (∃ bs q, Ready s bs q) ∧ SlotsFit s := by
  refine Run.Reachable.invariant (I := fun s => (∃ bs q, Ready s bs q) ∧ SlotsFit s) ?_ ?_ h
  · rintro s₀ ⟨s, poolAddr, poolSize, entryTbl, range, init⟩
    obtain ⟨⟨bs, q, r, _⟩, zero⟩ := rtbusInit_represents range init
    refine ⟨⟨bs, q, r⟩, fun event hevent => ?_⟩
    rw [zero event hevent]
    decide
  · rintro s op s' ⟨⟨bs, q, r⟩, slots⟩ ⟨fits, hrun⟩
    cases op with
    | act a =>
      obtain ⟨s₁, ret, bs', q', hres, kept⟩ := Act.perform_spec payloadMax r a
        (fits a (List.mem_singleton.mpr rfl))
      have hrun' : a.run payloadMax s = some (note s₁ (.did a ret)) := by
        unfold Act.run
        rw [hres]
      cases hrun'.symm.trans hrun
      exact ⟨⟨bs', q', kept.ready.congr rfl rfl rfl rfl⟩, kept.slots slots⟩
    | process hook handler =>
      obtain ⟨s₁, outcome, bs', q', hres, r', slots', _⟩ :=
        processWith_spec payloadMax r slots fits
      have hrun' : (Op.process hook handler).run payloadMax s = some s₁ := by
        simp only [Op.run, hres, Option.map_some]
      cases hrun'.symm.trans hrun
      exact ⟨⟨bs', q', r'⟩, slots'⟩

/-- In every reachable state with an event queued, `rtbus_process` dispatches one queued event
exactly if every delayed event that is due can be moved into its task queue. -/
theorem process_dispatches_iff_dueMovable (payloadMax : Nat) (s : Bus H (Log H))
    (h : s.Reachable payloadMax) (nonempty : ∃ p < taskPriorityNumber, s.taskTbl p ≠ null)
    (hook handler : List Act) (fits : ∀ a ∈ hook ++ handler, a.Fits) :
    (∃ s' entry ctx, processWith payloadMax hook handler s = some (s', .dispatched entry ctx)) ↔
      DueMovable s := by
  obtain ⟨⟨bs, q, r⟩, slots⟩ := reachable_ready h
  obtain ⟨s', outcome, _, _, hres, _, _, hiff⟩ :=
    processWith_spec payloadMax r slots fits
  have hq : ∃ p, q p ≠ [] := by
    obtain ⟨p, _, hp⟩ := nonempty
    exact ⟨p, fun h => hp ((r.queued.head_eq_zero_iff p).mpr h)⟩
  rw [← hiff hq, hres]
  constructor
  · rintro ⟨_, entry, ctx, heq⟩
    cases heq
    exact ⟨entry, ctx, rfl⟩
  · rintro ⟨entry, ctx, rfl⟩
    exact ⟨s', entry, ctx, rfl⟩

/-- The bus with one task dispatches its `INIT` event. -/
theorem process_dispatches_init :
    ∃ (s : Bus Unit (Log Unit)) (s' : Bus Unit (Log Unit)) (entry : Entry Unit) (ctx : Ctx),
      processWith 32 [] [] s = some (s', .dispatched entry ctx) := by
  obtain ⟨s, start, hqueue, hdue⟩ : ∃ s : Bus Unit (Log Unit), s.Start ∧
      s.taskTbl 0 = 0x20001008 ∧ dueSlots (uptime32 s) s.delayed = [] :=
    ⟨_, ⟨Bus.boot (.table none), 0x20001000, 256, some oneTask, by decide, rfl⟩, rfl, rfl⟩
  have hs : s.Reachable 32 := .start start
  obtain ⟨⟨bs, q, r⟩, _⟩ := reachable_ready hs
  have movable : DueMovable s := ⟨bs, r.queued.valid, by rw [hdue]; rfl⟩
  exact ⟨s, (process_dispatches_iff_dueMovable 32 s hs ⟨0, by decide, by rw [hqueue]; decide⟩ [] []
    (by simp)).mpr movable⟩

/-- A bus with one task, its `INIT` event still queued, one millisecond after a delayed post for
task 99 with a delay of one millisecond. -/
theorem reachable_with_unregistered_due :
    ∃ s : Bus Unit (Log Unit), s.Reachable 32 ∧ s.taskTbl 0 = 0x20001008 ∧
      s.backend.find 99 = none ∧ dueSlots (uptime32 s) s.delayed =
        [(PostArgs.bare 99 0).delayedEvent 1 fun _ => rfl] := by
  have fits : ∀ a, a = Act.postDelay (.bare 99 0) 1 ∨ a = Act.advance 1 → a.Fits := by
    rintro a (rfl | rfl)
    · show 0 + 16 < 2 ^ 32
      decide
    · trivial
  exact ⟨_, .step (a := .act (.advance 1)) (.step (a := .act (.postDelay (.bare 99 0) 1))
    (.start ⟨Bus.boot (.table none), 0x20001000, 256, some oneTask, by decide, rfl⟩)
    ⟨fun a ha => fits a (.inl (List.mem_singleton.mp ha)), rfl⟩)
    ⟨fun a ha => fits a (.inr (List.mem_singleton.mp ha)), rfl⟩, rfl, rfl, rfl⟩

/-- A delayed event for a task that is not registered keeps all queued events from being
dispatched once it is due. -/
theorem process_stuck_behind_unregistered :
    ¬ ∀ s : Bus Unit (Log Unit), s.Reachable 32 →
      (∃ p < taskPriorityNumber, s.taskTbl p ≠ null) → ∀ hook handler : List Act,
      (∀ a ∈ hook ++ handler, a.Fits) →
      ∃ s' entry ctx, processWith 32 hook handler s = some (s', .dispatched entry ctx) := by
  intro always
  obtain ⟨s, hs, hqueue, hfind, hdue⟩ := reachable_with_unregistered_due
  have nonempty : ∃ p < taskPriorityNumber, s.taskTbl p ≠ null :=
    ⟨0, by decide, by rw [hqueue]; decide⟩
  obtain ⟨⟨bs, q, r⟩, slots⟩ := reachable_ready hs
  have fits : ∀ a ∈ ([] : List Act) ++ [], a.Fits := fun _ h => by cases h
  obtain ⟨s', outcome, _, _, hres, _, _, hiff⟩ :=
    processWith_spec 32 r slots fits
  obtain ⟨_, entry, ctx, hdispatch⟩ := always s hs nonempty [] [] fits
  cases hres.symm.trans hdispatch
  obtain ⟨p, _, hp⟩ := nonempty
  have hq : ∃ p, q p ≠ [] := ⟨p, fun h => hp ((r.queued.head_eq_zero_iff p).mpr h)⟩
  obtain ⟨bs', _, h⟩ := (hiff hq).mp ⟨entry, ctx, rfl⟩
  rw [hdue] at h
  have hnone : accepts s bs' ((PostArgs.bare 99 0).delayedEvent 1 fun _ => rfl).args = none :=
    if_neg fun hacc => absurd hacc.1 (by
      show ¬ (s.backend.find 99).isSome = true
      rw [hfind]
      simp)
  simp [acceptsAll, hnone] at h

end Rtbus.Emos
