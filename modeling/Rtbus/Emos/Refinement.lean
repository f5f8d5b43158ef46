import Rtbus.Emos.Fifo

/-!
# The bus refines the priority queue

`Represents s a` joins the memory of an initialised bus to the abstract state: the queues in memory
are the pending events, priority by priority, with their contexts. Initialisation establishes it
with the `INIT` events, and every operation keeps it, with the log entries that the abstract step
allows. By induction the log of every run of the bus is a log of the priority queue.
-/

namespace Rtbus.Emos

open Rtbus.Pool Rtbus.Tiling Fifo

variable {H X : Type} {payloadMax : Nat}

/-- The queues hold the contexts of the pending events. -/
structure Tracks (a : Fifo) (q : Nat → List Node) : Prop where
  wellFormed : a.WellFormed
  pending : ∀ p, (q p).map Node.ctx = (a.pending p).map Prod.snd

/-- The bus in memory represents the abstract state; no delayed event is stored. -/
def Represents (s : Bus H (Log H)) (a : Fifo) : Prop :=
  ∃ bs q, Ready s bs q ∧ Tracks a q ∧ ∀ event ∈ s.delayed, event.used = false

/-- An operation of a run without delayed events, and the log entries it leaves. -/
def Bus.Step (payloadMax : Nat) (s : Bus H (Log H)) (x : Op × Log H) (s' : Bus H (Log H)) : Prop :=
  (∀ a ∈ x.1.acts, a.Fits ∧ ∀ args delayMs, a ≠ .postDelay args delayMs) ∧
    x.1.run payloadMax s = some s' ∧ s'.rest = s.rest ++ x.2

namespace Tracks

variable {a : Fifo} {q : Nat → List Node}

theorem accept (t : Tracks a q) (addr p : Nat) (ctx : Ctx) :
    Tracks (a.accept ⟨p, ctx⟩) (Function.update q p (q p ++ [⟨addr, ctx⟩])) := by
  refine ⟨t.wellFormed.accept _, (Function.forall_update_iff q fun p' l =>
    l.map Node.ctx = ((a.accept ⟨p, ctx⟩).pending p').map Prod.snd).mpr ⟨?_, fun p' hp => ?_⟩⟩
  · rw [pending_accept t.wellFormed, if_pos rfl, List.map_append, List.map_append, t.pending]
    rfl
  · rw [pending_accept t.wellFormed, if_neg (fun h => hp h.symm), List.append_nil, t.pending]

/-- The first node of a queue is the first pending event of its priority. -/
theorem head (t : Tracks a q) {p : Nat} {n : Node} {more : List Node} (hq : q p = n :: more) :
    ∃ ticket rest, a.pending p = (ticket, n.ctx) :: rest ∧
      more.map Node.ctx = rest.map Prod.snd := by
  have := t.pending p
  rw [hq, List.map_cons] at this
  cases hp : a.pending p with
  | nil =>
    rw [hp] at this
    cases this
  | cons x rest =>
    rw [hp, List.map_cons] at this
    obtain ⟨h1, h2⟩ := List.cons.inj this
    exact ⟨x.1, rest, by rw [h1], h2⟩

theorem dispatch (t : Tracks a q) {p ticket : Nat} {n : Node} {more : List Node}
    {rest : List (Nat × Ctx)} (hq : q p = n :: more) (hp : a.pending p = (ticket, n.ctx) :: rest) :
    Tracks (a.dispatch ticket) (Function.update q p more) := by
  obtain ⟨hacc, hfresh⟩ := mem_pending.mp (by rw [hp]; exact List.mem_cons_self .. :
    (ticket, n.ctx) ∈ a.pending p)
  refine ⟨⟨?_, fun i hi => ?_⟩, ?_⟩
  · refine List.nodup_append.mpr ⟨t.wellFormed.nodup, by simp, fun x hx y hy => ?_⟩
    rw [List.mem_singleton.mp hy]
    exact fun h => hfresh (h ▸ hx)
  · rcases List.mem_append.mp hi with hi | hi
    · exact t.wellFormed.bound i hi
    · rw [List.mem_singleton.mp hi]
      exact (List.getElem?_eq_some_iff.mp hacc).1
  · have hmap := t.pending p
    rw [hq, hp] at hmap
    refine (Function.forall_update_iff q fun p' l =>
      l.map Node.ctx = ((a.dispatch ticket).pending p').map Prod.snd).mpr ⟨?_, fun p' hne => ?_⟩
    · rw [pending_dispatch hp, if_pos rfl]
      exact (List.cons.inj hmap).2
    · rw [pending_dispatch hp, if_neg hne, t.pending]

theorem pending_eq_nil (t : Tracks a q) (p : Nat) : a.pending p = [] ↔ q p = [] := by
  rw [← List.map_eq_nil_iff (f := Prod.snd), ← t.pending, List.map_eq_nil_iff]

end Tracks

/-! ## Acts -/

/-- A post is in the abstract state what its result says. -/
theorem Posted.tracks {s s' : Bus H X} {bs : List Block} {q : Nat → List Node}
    {args : PostArgs} {ret : Ret} (h : Posted s bs q args s' ret) {a : Fifo} (t : Tracks a q) :
    ∃ bs' q', Ready s' bs' q' ∧ Grown q q' ∧
      Tracks (a.logged s.backend (.did (.post args) ret)) q' := by
  obtain ⟨_, hcase⟩ := h
  rcases hcase with ⟨_, ⟨e, rfl⟩, _, r⟩ | ⟨bs', entry, addr, _, rfl, hfind, r⟩
  · exact ⟨bs, q, r, Grown.refl q, t⟩
  · refine ⟨bs', _, r, grown_append _ _ _, ?_⟩
    rw [Fifo.logged_post _ a hfind]
    exact t.accept addr _ args.ctx

/-- An act other than a delayed post. -/
theorem Act.run_tracks (payloadMax : Nat) {s : Bus H (Log H)} {bs : List Block}
    {q : Nat → List Node}
    (r : Ready s bs q) {a : Fifo} (t : Tracks a q) {x : Act} (fits : x.Fits)
    (plain : ∀ args delayMs, x ≠ .postDelay args delayMs) :
    ∃ s' ret bs' q', x.run payloadMax s = some s' ∧ s'.rest = s.rest ++ [.did x ret] ∧
      s'.delayed = s.delayed ∧ s'.backend = s.backend ∧ Ready s' bs' q' ∧ Grown q q' ∧
      Tracks (a.logged s.backend (.did x ret)) q' := by
  unfold Act.run
  cases x with
  | post args =>
    obtain ⟨s', ret, hres, posted⟩ := rtbusPost_spec r args fits
    obtain ⟨bs', q', r', grown, t'⟩ := posted.tracks t
    refine ⟨note s' (.did (.post args) ret), ret, bs', q', ?_, ?_, posted.1.delayed,
      posted.1.backend, r'.congr rfl rfl rfl rfl, grown, t'⟩
    · simp only [Act.perform, hres]
    · show s'.rest ++ _ = _
      rw [posted.1.rest]
  | postDelay args delayMs => exact absurd rfl (plain args delayMs)
  | advance ms =>
    exact ⟨_, .ok, bs, q, rfl, rfl, rfl, rfl, r.congr rfl rfl rfl rfl, Grown.refl q, t⟩

/-- Acts other than delayed posts. -/
theorem runActs_tracks (payloadMax : Nat) {s : Bus H (Log H)} {bs : List Block}
    {q : Nat → List Node}
    (r : Ready s bs q) {a : Fifo} (t : Tracks a q) {acts : List Act}
    (plain : ∀ x ∈ acts, x.Fits ∧ ∀ args delayMs, x ≠ .postDelay args delayMs) :
    ∃ s' log bs' q', runActs payloadMax acts s = some s' ∧ s'.rest = s.rest ++ log ∧
      Noted acts log ∧ s'.delayed = s.delayed ∧ s'.backend = s.backend ∧ Ready s' bs' q' ∧
      Grown q q' ∧ Tracks (a.replay s.backend log) q' := by
  induction acts generalizing s bs q a with
  | nil =>
    exact ⟨s, [], bs, q, rfl, (List.append_nil _).symm, .nil, rfl, rfl, r, Grown.refl q, t⟩
  | cons x xs ih =>
    obtain ⟨hfits, hplain⟩ := plain x (List.mem_cons_self ..)
    obtain ⟨s₁, ret, bs₁, q₁, hrun, hrest, hdel, hback, r₁, g₁, t₁⟩ :=
      Act.run_tracks payloadMax r t hfits hplain
    obtain ⟨s₂, log, bs₂, q₂, hrun₂, hrest₂, noted, hdel₂, hback₂, r₂, g₂, t₂⟩ :=
      ih r₁ t₁ fun y hy => plain y (List.mem_cons_of_mem _ hy)
    refine ⟨s₂, .did x ret :: log, bs₂, q₂, ?_, ?_, .cons ⟨ret, rfl⟩ noted, hdel₂.trans hdel,
      hback₂.trans hback, r₂, g₁.trans g₂, ?_⟩
    · unfold runActs
      rw [hrun]
      exact hrun₂
    · rw [hrest₂, hrest, List.append_assoc]
      rfl
    · rw [hback] at t₂
      exact t₂

/-- What is posted does not depend on what is dispatched. -/
theorem Fifo.replay_dispatch (b : Backend H) (a : Fifo) (ticket : Nat) (log : Log H) :
    (a.dispatch ticket).replay b log = (a.replay b log).dispatch ticket := by
  induction log generalizing a with
  | nil => rfl
  | cons e log ih =>
    have step : (a.dispatch ticket).logged b e = (a.logged b e).dispatch ticket := by
      unfold logged
      split
      · split
        · rfl
        · rfl
      · rfl
    show ((a.dispatch ticket).logged b e).replay b log = _
    rw [step, ih]
    rfl

/-- Later posts come behind what is pending. -/
theorem Fifo.replay_prefix (b : Backend H) {a : Fifo} (w : a.WellFormed) (log : Log H) (p : Nat) :
    a.pending p <+: (a.replay b log).pending p := by
  induction log generalizing a with
  | nil => exact List.prefix_rfl
  | cons e log ih =>
    have hstep : (a.logged b e).WellFormed ∧ a.pending p <+: (a.logged b e).pending p := by
      unfold logged
      split
      · split
        · exact ⟨w.accept _, by rw [pending_accept w]; exact List.prefix_append _ _⟩
        · exact ⟨w, List.prefix_rfl⟩
      · exact ⟨w, List.prefix_rfl⟩
    exact hstep.2.trans (ih hstep.1)

/-! ## Processing -/

/-- Without delayed events nothing is moved. -/
theorem moveDueEvents_of_unused {s : Bus H X}
    (unused : ∀ event ∈ s.delayed, event.used = false) : moveDueEvents s = some (s, .ok) := by
  have key : ∀ (nowMs : UInt32) (l : List DelayedEvent), (∀ event ∈ l, event.used = false) →
      moveDueFrom nowMs l s = some (s, l, .ok) := by
    intro nowMs l
    induction l with
    | nil => exact fun _ => rfl
    | cons e l ih =>
      intro h
      rw [moveDueFrom, if_pos (.inl (h e (List.mem_cons_self ..))),
        ih fun x hx => h x (List.mem_cons_of_mem _ hx)]
  unfold moveDueEvents
  rw [key _ _ unused]

/-- A queue that is not empty makes for an oldest event, and conversely. -/
theorem Tracks.exists_first {a : Fifo} {q : Nat → List Node} (t : Tracks a q) {p₀ : Nat}
    (hq : q p₀ ≠ []) : ∃ p n rest ticket pend, q p = n :: rest ∧ (∀ p' < p, q p' = []) ∧
      a.pending p = (ticket, n.ctx) :: pend ∧ a.Oldest p ticket n.ctx := by
  obtain ⟨p, n, rest, hn, first⟩ := Emos.exists_first hq
  obtain ⟨ticket, pend, hpend, _⟩ := t.head hn
  exact ⟨p, n, rest, ticket, pend, hn, first, hpend, ⟨pend, hpend⟩,
    fun p' h => (t.pending_eq_nil p').mpr (first p' h)⟩

/-- One call of `rtbus_process` is a step of the priority queue. -/
theorem process_simulates (payloadMax : Nat) {s : Bus H (Log H)} {a : Fifo} (h : Represents s a)
    {hook handler : List Act}
    (plain : ∀ x ∈ hook ++ handler, x.Fits ∧ ∀ args delayMs, x ≠ .postDelay args delayMs) :
    ∃ s' outcome log a', processWith payloadMax hook handler s = some (s', outcome) ∧
      s'.rest = s.rest ++ log ∧ s'.backend = s.backend ∧
      Fifo.Step s.backend a (.process hook handler, log) a' ∧ Represents s' a' := by
  obtain ⟨bs, q, r, t, unused⟩ := h
  obtain ⟨s₁, pre, bs₁, q₁, hrun₁, hrest, noted, hdel, hback, r₁, _, t₁⟩ :=
    runActs_tracks payloadMax r t fun x hx => plain x (List.mem_append_left _ hx)
  have hcount : s.entryCount ≠ 0 := Nat.pos_iff_ne_zero.mp r.count_pos
  have hplain : ∀ x ∈ handler, x.Fits ∧ ∀ args delayMs, x ≠ .postDelay args delayMs :=
    fun x hx => plain x (List.mem_append_right _ hx)
  have hprocess : processWith payloadMax hook handler s =
      dispatchOrPoll (handlerOf payloadMax handler) s₁ := by
    unfold processWith rtbusProcess emosProcess hookOf
    rw [moveDueEvents_of_unused unused]
    simp only [if_neg hcount, hrun₁, Option.map_some]
  -- a handler that is called in a state with the queues `q₁`
  have hcall : ∀ (f : H) (ctx : Ctx), ∃ s₂ post bs₂ q₂,
      handlerOf payloadMax handler f ctx s₁ = some s₂ ∧
      s₂.rest = s.rest ++ (pre ++ .called f ctx :: post) ∧ Noted handler post ∧
      s₂.delayed = s.delayed ∧ s₂.backend = s.backend ∧ Ready s₂ bs₂ q₂ ∧ Grown q₁ q₂ ∧
      Tracks ((a.replay s.backend pre).replay s.backend post) q₂ := by
    intro f ctx
    obtain ⟨s₂, post, bs₂, q₂, hrun₂, hrest₂, noted₂, hdel₂, hback₂, r₂, g₂, t₂⟩ :=
      runActs_tracks payloadMax (s := note s₁ (.called f ctx))
        (r₁.congr rfl rfl rfl rfl) t₁ hplain
    refine ⟨s₂, post, bs₂, q₂, hrun₂, ?_, noted₂, hdel₂.trans hdel, hback₂.trans hback, r₂, g₂, ?_⟩
    · rw [hrest₂]
      show (s₁.rest ++ [_]) ++ post = _
      rw [hrest]
      simp
    · rw [show (note s₁ (.called f ctx)).backend = s.backend from hback] at t₂
      exact t₂
  rw [hprocess, dispatchOrPoll]
  by_cases hempty : ∀ p, q₁ p = []
  · -- nothing is pending
    have hnone : ∀ p, (a.replay s.backend pre).pending p = [] :=
      fun p => (t₁.pending_eq_nil p).mpr (hempty p)
    rw [emosProcessQueuedEvent_idle _ r₁ hempty]
    dsimp only
    rcases pollFrom_cases (handlerOf payloadMax handler) s₁ s₁.entryCount 0 with
      hidle | ⟨entry, f, index, hget, halways, htask, hpoll⟩
    · refine ⟨s₁, .idle, pre, _, hidle, hrest, hback, .idle noted hnone, bs₁, q₁, r₁, t₁, ?_⟩
      rw [hdel]
      exact unused
    · obtain ⟨s₂, post, bs₂, q₂, hrun₂, hrest₂, noted₂, hdel₂, hback₂, r₂, _, t₂⟩ := hcall f
        { taskId := entry.taskId, id := sysEvt sysPoll, payload := [] }
      rw [hback] at hget
      refine ⟨{ s₂ with pollNextIndex := (index + 1) % s₂.entryCount }, .polled entry, _, _, ?_,
        hrest₂, hback₂, .poll noted noted₂ hnone hget halways htask, bs₂, q₂,
        r₂.congr rfl rfl rfl rfl, t₂, ?_⟩
      · unfold emosProcessPollEvent
        rw [hpoll, hrun₂]
        rfl
      · show ∀ event ∈ s₂.delayed, _
        rw [hdel₂]
        exact unused
  · obtain ⟨p₀, hp₀⟩ := Classical.not_forall.mp hempty
    obtain ⟨p, n, rest, ticket, pend, hq, first, hpend, oldest⟩ := t₁.exists_first hp₀
    obtain ⟨entry, hfind, hprio⟩ := r₁.tasks p n (by rw [hq]; exact List.mem_cons_self ..)
    obtain ⟨_, _, f, htask⟩ := r₁.registry.found _ _ hfind
    obtain ⟨s₂, post, bs₂, q₂, hrun₂, hrest₂, noted₂, hdel₂, hback₂, r₂, g₂, t₂⟩ := hcall f n.ctx
    -- the handler has posted behind the event it was called with
    obtain ⟨more, hmore⟩ := g₂ p
    rw [hq, List.cons_append] at hmore
    obtain ⟨pend', hpend'⟩ := Fifo.replay_prefix s.backend t₁.wellFormed post p
    rw [hpend, List.cons_append] at hpend'
    obtain ⟨s₃, bs₃, hres, same, r₃⟩ := emosProcessQueuedEvent_dispatches
      (handlerOf payloadMax handler) r₁ first hq hfind htask hrun₂ r₂ hmore.symm
    rw [hback] at hfind
    refine ⟨s₃, .dispatched entry n.ctx, _, _, by rw [hres], same.rest.trans hrest₂,
      same.backend.trans hback₂, .dispatch noted noted₂ oldest hfind hprio htask, bs₃, _, r₃, ?_, ?_⟩
    · rw [Fifo.replay_dispatch]
      exact t₂.dispatch hmore.symm hpend'.symm
    · rw [same.delayed, hdel₂]
      exact unused

/-! ## Initialisation -/

/-- The loop that posts the `INIT` events. -/
theorem postInitEvents_tracks {s : Bus H X} {bs : List Block} {q : Nat → List Node}
    (r : Ready s bs q) {a : Fifo} (t : Tracks a q) (count index : Nat) :
    ∃ s' ret, postInitEvents count index s = some (s', ret) ∧ SameRest s s' ∧
      (ret = .ok → ∃ bs' q', Ready s' bs' q' ∧
        Tracks (a.replay s.backend (initLog s.backend count index)) q') := by
  induction count generalizing s bs q a index with
  | zero => exact ⟨s, .ok, rfl, SameRest.refl s, fun _ => ⟨bs, q, r, t⟩⟩
  | succ count ih =>
    unfold postInitEvents initLog
    cases hget : s.backend.getByIndex index with
    | none => exact ⟨s, .err .EINVAL, rfl, SameRest.refl s, fun h => by cases h⟩
    | some entry =>
      cases hinit : entry.init with
      | false =>
        simp only [hinit]
        exact ih r t (index + 1)
      | true =>
        obtain ⟨s₁, ret, hres, posted⟩ := emosPost_spec r (initArgs entry)
          (show 0 + 16 < 2 ^ 32 by decide)
        obtain ⟨bs₁, q₁, r₁, _, t₁⟩ := posted.tracks t
        simp only [hinit, hres, ↓reduceIte]
        cases ret with
        | err e => exact ⟨s₁, .err e, rfl, posted.1, fun h => by cases h⟩
        | ok =>
          obtain ⟨s₂, ret, hres₂, same, hok⟩ := ih r₁ t₁ (index + 1)
          refine ⟨s₂, ret, hres₂, posted.1.trans same, fun h => ?_⟩
          obtain ⟨bs₂, q₂, r₂, t₂⟩ := hok h
          rw [posted.1.backend] at t₂
          exact ⟨bs₂, q₂, r₂, t₂⟩

/-- A fresh pool has empty queues. -/
theorem queued_fresh {h : Heap} (v : Valid h poolId []) :
    Queued h (fun _ => null) [] (fun _ => []) := by
  refine ⟨v, fun _ => ⟨rfl, by simp, .nil⟩, by simp, by simp, by simp, ?_, fun _ _ => rfl⟩
  intro b hb
  cases hb

/-- A successful `rtbus_init` on a pool in the address space, whatever the bus was used for before,
leaves the `INIT` events pending and nothing else, and all slots cleared. -/
theorem rtbusInit_tracks {s s' : Bus H X} {poolAddr poolSize : Nat}
    {entryTbl : Option (EntryTable H)} (range : poolAddr + poolSize ≤ 2 ^ 32)
    (h : rtbusInit s poolAddr poolSize entryTbl = some (s', .ok)) :
    (∃ bs q, Ready s' bs q ∧ Tracks (initial s'.backend s'.entryCount) q) ∧
      (∀ event ∈ s'.delayed, event = DelayedEvent.zero) ∧ s'.rest = s.rest := by
  unfold rtbusInit emosInit emosInitPool at h
  by_cases hpool : poolAddr = null ∨ poolSize = 0
  · rw [if_pos hpool] at h
    cases h
  · rw [if_neg hpool] at h
    dsimp only at h
    obtain ⟨v, _⟩ := @initMemPool_spec s.heap poolId _ _ (by decide) range
    cases hb : (resetDelayedEvents s).backend.reset.init entryTbl with
    | mk backend rest =>
      obtain ⟨ret, count⟩ := rest
      rw [hb] at h
      cases ret with
      | err e => cases h
      | ok =>
        obtain ⟨registry, hcount⟩ := Backend.init_ok hb
        dsimp only at h
        obtain ⟨s₁, ret, hres, same, hok⟩ := postInitEvents_tracks
          (s := { resetDelayedEvents s with
            heap := initMemPool s.heap poolId poolAddr poolSize, taskTbl := fun _ => null,
            pollNextIndex := 0, backend := backend, entryCount := count })
          (a := ⟨[], []⟩) ⟨queued_fresh v, registry, hcount, fun _ _ h => by cases h⟩
          ⟨⟨.nil, fun _ h => by cases h⟩, fun _ => rfl⟩ count 0
        rw [show (resetDelayedEvents s).heap = s.heap from rfl, hres] at h
        cases ret with
        | err e => cases h
        | ok =>
          cases h
          obtain ⟨bs, q, r, t⟩ := hok rfl
          have zero : ∀ event ∈ s'.delayed, event = DelayedEvent.zero := by
            rw [same.delayed]
            intro event hevent
            obtain ⟨_, _, rfl⟩ := List.mem_map.mp hevent
            rfl
          refine ⟨⟨bs, q, r, ?_⟩, zero, same.rest⟩
          rw [same.backend, same.entryCount]
          exact t

/-- Initialisation in the terms of the refinement. -/
theorem rtbusInit_represents {s s' : Bus H (Log H)} {poolAddr poolSize : Nat}
    {entryTbl : Option (EntryTable H)} (range : poolAddr + poolSize ≤ 2 ^ 32)
    (h : rtbusInit s poolAddr poolSize entryTbl = some (s', .ok)) :
    Represents s' (initial s'.backend s'.entryCount) ∧
      ∀ event ∈ s'.delayed, event = DelayedEvent.zero := by
  obtain ⟨⟨bs, q, r, t⟩, zero, _⟩ := rtbusInit_tracks range h
  exact ⟨⟨bs, q, r, t, fun event hevent => by rw [zero event hevent]; rfl⟩, zero⟩

/-! ## Runs -/

/-- An operation in a state that represents the priority queue returns, and is a step of it. -/
theorem op_simulates (payloadMax : Nat) {s : Bus H (Log H)} {a : Fifo} (h : Represents s a)
    (op : Op)
    (plain : ∀ x ∈ op.acts, x.Fits ∧ ∀ args delayMs, x ≠ .postDelay args delayMs) :
    ∃ s' log a', Bus.Step payloadMax s (op, log) s' ∧ s'.backend = s.backend ∧
      Fifo.Step s.backend a (op, log) a' ∧ Represents s' a' := by
  cases op with
  | act x =>
    obtain ⟨bs, q, r, t, unused⟩ := h
    obtain ⟨hfits, hplain⟩ := plain x (List.mem_singleton.mpr rfl)
    obtain ⟨s', ret, bs', q', hrun, hrest, hdel, hback, r', _, t'⟩ :=
      Act.run_tracks payloadMax r t hfits hplain
    exact ⟨s', _, _, ⟨plain, hrun, hrest⟩, hback, .act, bs', q', r', t', by rw [hdel]; exact unused⟩
  | process hook handler =>
    obtain ⟨s', outcome, log, a', hres, hrest, hback, hstep, hrep⟩ :=
      process_simulates payloadMax h plain
    refine ⟨s', log, a', ⟨plain, ?_, hrest⟩, hback, hstep, hrep⟩
    simp only [Op.run, hres, Option.map_some]

/-- A post that is refused leaves the queues as they are. -/
theorem refused_unchanged {s s' : Bus H (Log H)} {args : PostArgs} (fits : args.Fits) {e : Errno}
    (h : rtbusPost s args = some (s', .err e)) {bs : List Block} {q : Nat → List Node}
    (r : Ready s bs q) : s'.taskTbl = s.taskTbl ∧ Ready s' bs q := by
  obtain ⟨s₁, ret, hres, _, hcase⟩ := rtbusPost_spec r args fits
  cases hres.symm.trans h
  rcases hcase with ⟨_, _, htbl, r'⟩ | ⟨_, _, _, _, hok, _⟩
  · exact ⟨htbl, r'⟩
  · cases hok

/-- The event bus refines a priority queue. Whatever bus `rtbus_init` succeeded on, with whatever
table, every run of posts and `rtbus_process` calls without delayed events leaves a log of the
priority queue that starts with the `INIT` events: its queues in memory are the pending events with
their contexts, no event is dispatched twice, every further operation returns, and a post that is
refused leaves queues and queued contexts as they are. -/
theorem bus_refines_priority_fifo (payloadMax : Nat) {s s₀ s₁ : Bus H (Log H)}
    {poolAddr poolSize : Nat} {entryTbl : Option (EntryTable H)}
    (range : poolAddr + poolSize ≤ 2 ^ 32)
    (init : rtbusInit s poolAddr poolSize entryTbl = some (s₀, .ok)) {trace : List (Op × Log H)}
    (run : Run.Trace (Bus.Step payloadMax) s₀ trace s₁) :
    ∃ a, Run.Trace (Fifo.Step s₀.backend) (initial s₀.backend s₀.entryCount) trace a ∧
      Represents s₁ a ∧ a.dispatched.Nodup ∧
      (∀ op : Op, (∀ x ∈ op.acts, x.Fits ∧ ∀ args delayMs, x ≠ .postDelay args delayMs) →
        ∃ log s₂, Bus.Step payloadMax s₁ (op, log) s₂) ∧
      ∀ args e s₂, args.Fits → rtbusPost s₁ args = some (s₂, .err e) →
        s₂.taskTbl = s₁.taskTbl ∧ ∀ bs q, Ready s₁ bs q → Ready s₂ bs q := by
  have sim : ∀ (s : Bus H (Log H)) (a : Fifo) (x : Op × Log H) (s' : Bus H (Log H)),
      (s.backend = s₀.backend ∧ Represents s a) → Bus.Step payloadMax s x s' →
      ∃ a', Fifo.Step s₀.backend a x a' ∧ (s'.backend = s₀.backend ∧ Represents s' a') := by
    rintro s a ⟨op, log⟩ s' ⟨hback, hrep⟩ ⟨plain, hrun, hrest⟩
    obtain ⟨s₂, log₂, a', ⟨_, hrun₂, hrest₂⟩, hback₂, hstep, hrep'⟩ :=
      op_simulates payloadMax hrep op plain
    obtain rfl := Option.some.inj (hrun.symm.trans hrun₂)
    obtain rfl := List.append_cancel_left (hrest.symm.trans hrest₂)
    rw [hback] at hstep
    exact ⟨a', hstep, hback₂.trans hback, hrep'⟩
  obtain ⟨a, htrace, _, hrep⟩ :=
    run.simulate sim ⟨rfl, (rtbusInit_represents range init).1⟩
  refine ⟨a, htrace, hrep, ?_, fun op plain => ?_, fun args e s₂ fits h => ?_⟩
  · obtain ⟨_, _, _, t, _⟩ := hrep
    exact t.wellFormed.nodup
  · obtain ⟨s₂, log, _, hstep, _⟩ := op_simulates payloadMax hrep op plain
    exact ⟨log, s₂, hstep⟩
  · refine ⟨?_, fun bs q r => (refused_unchanged fits h r).2⟩
    obtain ⟨bs, q, r, _⟩ := hrep
    exact (refused_unchanged fits h r).1

/-- Zeroed statics, with eight slots for delayed events. -/
def Bus.boot (backend : Backend H) : Bus H (Log H) :=
  { heap := { mem := fun _ => 0, pools := fun _ => PoolVars.zero }
    taskTbl := fun _ => null
    entryCount := 0
    pollNextIndex := 0
    backend := backend
    eventSem := 0
    delayed := List.replicate 8 DelayedEvent.zero
    uptime := 0
    rest := [] }

/-- A table with one task of high priority. -/
def oneTask : EntryTable Unit :=
  { entries := [{ taskId := 1, priority := 0, taskEntry := some (), init := true, always := false }]
    count_lt := by decide }

/-- The refinement for a bus with one task that processes its `INIT` event. -/
theorem oneTask_refines_priority_fifo :
    ∃ (s₀ s₁ : Bus Unit (Log Unit)) (log : Log Unit) (a : Fifo),
      rtbusInit (Bus.boot (.table none)) 0x20001000 256 (some oneTask) = some (s₀, .ok) ∧
        Run.Trace (Fifo.Step s₀.backend) (initial s₀.backend s₀.entryCount)
          [(.process [] [], log)] a ∧ Represents s₁ a := by
  obtain ⟨s₀, init⟩ : ∃ s₀, rtbusInit (Bus.boot (.table none)) 0x20001000 256 (some oneTask) =
      some (s₀, .ok) := ⟨_, rfl⟩
  obtain ⟨s₁, log, _, step, _⟩ := op_simulates 32
    (rtbusInit_represents (by decide) init).1 (.process [] []) (by simp [Op.acts])
  obtain ⟨a, trace, hrep, _⟩ :=
    bus_refines_priority_fifo 32 (by decide) init (.cons step .nil)
  exact ⟨s₀, s₁, log, a, init, trace, hrep⟩

end Rtbus.Emos
