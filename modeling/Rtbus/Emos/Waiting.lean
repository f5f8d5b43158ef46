import Rtbus.Emos.Contents

/-!
# How long a queued event waits

Every operation of a run is a step of the priority queue over what is queued in memory
(`observed_simulates`): the posts that return 0 and the delayed events that are moved arrive, each
call of a handler with something queued serves the first event. The count of places in line carries
over (`served_in_turn`): an event is handed to its task by the call in front of which as many
handlers were called as there were events ahead of it, those that overtook it included.

Calls of `rtbus_process` that return an error call no handler and are not counted. Which ones do is
decided by the delayed events that are due.
-/

namespace Rtbus.Emos

open Rtbus.Pool Rtbus.Tiling Rtbus.Priority Fifo

variable {H X : Type} {payloadMax : Nat}

/-- An operation and what can be seen of it: the due events moved into the queues, and the log. -/
structure Observation (H : Type) where
  op : Op
  moved : List PostArgs
  log : Log H

/-- The due events that an operation moves into the queues. -/
def Op.moves (s : Bus H X) : Op → List PostArgs
  | .act _ => []
  | .process _ _ => (moved s).map Prod.snd

/-- An operation whose block sizes do not wrap `size_t`, with what can be seen of it. -/
def Bus.Observed (payloadMax : Nat) (s : Bus H (Log H)) (x : Observation H) (s' : Bus H (Log H)) :
    Prop :=
  (∀ a ∈ x.op.acts, a.Fits) ∧ x.op.run payloadMax s = some s' ∧ x.moved = x.op.moves s ∧
    s'.rest = s.rest ++ x.log

/-- What arrives in an operation. -/
def Observation.arrivals (b : Backend H) (x : Observation H) : List (Nat × Ctx) :=
  tagged b (x.moved ++ x.log.posts)

/-- The calls of handlers in a run. -/
def handled : List (Observation H) → Nat
  | [] => 0
  | x :: xs => x.log.calls + handled xs

/-- What arrives in a run. -/
def arrived (b : Backend H) (xs : List (Observation H)) : List (Nat × Ctx) :=
  xs.flatMap (Observation.arrivals b)

/-- An operation as a step of the priority queue. -/
inductive Shows (b : Backend H) : Observation H → Label Ctx → Prop
  /-- No handler is called. -/
  | arrive {x : Observation H} : x.log.calls = 0 → Shows b x (.arrive (x.arrivals b))
  /-- The handler of the first event is called. -/
  | serve {op : Op} {moved : List PostArgs} {pre post : Log H} {ctx : Ctx} {entry : Entry H} {f : H} :
      pre.calls = 0 → post.calls = 0 → b.find ctx.taskId = some entry → entry.taskEntry = some f →
      Shows b ⟨op, moved, pre ++ .called f ctx :: post⟩
        (.serve (tagged b (moved ++ pre.posts)) ctx (tagged b post.posts))
  /-- A task is polled. -/
  | rest {op : Op} {moved : List PostArgs} {pre post : Log H} {ctx : Ctx} {f : H} :
      pre.calls = 0 → post.calls = 0 →
      Shows b ⟨op, moved, pre ++ .called f ctx :: post⟩
        (.rest (tagged b (moved ++ pre.posts)) (tagged b post.posts))

theorem Shows.arrivals_eq {b : Backend H} {x : Observation H} {l : Label Ctx} (h : Shows b x l) :
    l.arrivals = x.arrivals b := by
  cases h with
  | arrive _ => rfl
  | serve _ _ _ _ => simp [Label.arrivals, Observation.arrivals]
  | rest _ _ => simp [Label.arrivals, Observation.arrivals]

theorem calls_of_called {pre post : Log H} {f : H} {ctx : Ctx} (h : pre.calls = 0)
    (h' : post.calls = 0) : Log.calls (pre ++ .called f ctx :: post) = 1 := by
  unfold Log.calls at *
  rw [List.countP_append, List.countP_cons_of_pos (by rfl), h, h']

theorem Shows.turns_eq {b : Backend H} {x : Observation H} {l : Label Ctx} (h : Shows b x l) :
    l.turns = x.log.calls := by
  cases h with
  | arrive h => exact h.symm
  | serve h h' _ _ => exact (calls_of_called h h').symm
  | rest h h' => exact (calls_of_called h h').symm

/-! ## Acts -/

/-- An act leaves the log alone and adds to the queues what its log entry says. -/
theorem Act.perform_contents {s s' : Bus H X} {bs : List Block} {q : Nat → List Node}
    (r : Ready s bs q) {a : Act} (fits : a.Fits) {ret : Ret}
    (call : a.perform payloadMax s = some (s', ret)) :
    s'.rest = s.rest ∧ contents s' =
      enqueue (contents s) (tagged s.backend (Log.posts [(.did a ret : LogEntry H)])) := by
  have post : ∀ args : PostArgs, args.Fits → rtbusPost s args = some (s', ret) →
      s'.rest = s.rest ∧
        contents s' = enqueue (contents s) (tagged s.backend (if ret = .ok then [args] else [])) := by
    intro args hfits hpost
    obtain ⟨s₁, ret₁, hpost₁, posted⟩ := rtbusPost_spec r args hfits
    obtain ⟨rfl, rfl⟩ := Prod.mk.inj (Option.some.inj (hpost.symm.trans hpost₁))
    exact ⟨posted.1.rest, posted.contents_eq r⟩
  have plain : contents s = enqueue (contents s) (tagged s.backend []) := (enqueue_nil _).symm
  cases a with
  | post args =>
    obtain ⟨hrest, hcontents⟩ := post args fits call
    refine ⟨hrest, ?_⟩
    rw [hcontents]
    cases ret with
    | ok => rfl
    | err e => rfl
  | advance ms =>
    obtain ⟨rfl, rfl⟩ := Prod.mk.inj (Option.some.inj call)
    exact ⟨rfl, plain⟩
  | postDelay args delayMs =>
    have refused : ∀ e : Errno, some (s, Ret.err e) = some (s', ret) → s'.rest = s.rest ∧
        contents s' = enqueue (contents s)
          (tagged s.backend (Log.posts [(.did (.postDelay args delayMs) ret : LogEntry H)])) := by
      intro e h
      obtain ⟨rfl, rfl⟩ := Prod.mk.inj (Option.some.inj h)
      exact ⟨rfl, plain⟩
    change rtbusPostDelay payloadMax s args delayMs = some (s', ret) at call
    unfold rtbusPostDelay at call
    by_cases hdelay : delayMs = 0
    · rw [if_pos hdelay] at call
      obtain ⟨hrest, hcontents⟩ := post args fits call
      refine ⟨hrest, ?_⟩
      rw [hcontents]
      cases ret with
      | ok => simp [Log.posts, LogEntry.enqueued, hdelay]
      | err e => rfl
    · rw [if_neg hdelay] at call
      split at call
      · exact refused _ call
      · split at call
        · exact refused _ call
        · split at call
          · exact refused _ call
          · obtain ⟨rfl, rfl⟩ := Prod.mk.inj (Option.some.inj call)
            refine ⟨rfl, ?_⟩
            rw [show Log.posts [(.did (.postDelay args delayMs) .ok : LogEntry H)] = [] by
              simp [Log.posts, LogEntry.enqueued, hdelay]]
            exact plain

/-- What some acts do: they are noted, and add what their log entries say. -/
structure Acted (s : Bus H (Log H)) (q : Nat → List Node) (acts : List Act) (log : Log H)
    (s' : Bus H (Log H)) (bs' : List Block) (q' : Nat → List Node) : Prop where
  kept : Kept s q s' bs' q'
  noted : Noted acts log
  rest : s'.rest = s.rest ++ log
  contents_eq : contents s' = enqueue (contents s) (tagged s.backend log.posts)

/-- An act. -/
theorem Act.run_acted (payloadMax : Nat) {s : Bus H (Log H)} {bs : List Block}
    {q : Nat → List Node} (r : Ready s bs q) (a : Act) (fits : a.Fits) :
    ∃ s' ret bs' q', a.run payloadMax s = some s' ∧ Acted s q [a] [.did a ret] s' bs' q' := by
  obtain ⟨s', ret, bs', q', hres, kept⟩ := Act.perform_spec payloadMax r a fits
  obtain ⟨hrest, hcontents⟩ := Act.perform_contents r fits hres
  refine ⟨note s' (.did a ret), ret, bs', q', ?_,
    ⟨kept.ready.congr rfl rfl rfl rfl, kept.grown, kept.slots, kept.backend, kept.confined⟩,
    .cons ⟨ret, rfl⟩ .nil, ?_, hcontents⟩
  · unfold Act.run
    rw [hres]
  · show s'.rest ++ _ = _
    rw [hrest]

/-- Acts one after the other. -/
theorem runActs_acted (payloadMax : Nat) {s : Bus H (Log H)} {bs : List Block}
    {q : Nat → List Node} (r : Ready s bs q) (acts : List Act) (fits : ∀ a ∈ acts, a.Fits) :
    ∃ s' log bs' q', runActs payloadMax acts s = some s' ∧ Acted s q acts log s' bs' q' := by
  induction acts generalizing s bs q with
  | nil =>
    exact ⟨s, [], bs, q, rfl, ⟨r, Grown.refl q, id, rfl, Confined.refl s.heap poolId⟩, .nil,
      (List.append_nil _).symm, (enqueue_nil _).symm⟩
  | cons a as ih =>
    obtain ⟨s₁, ret, bs₁, q₁, hrun, k₁, _, hrest, hcontents⟩ :=
      Act.run_acted payloadMax r a (fits a (List.mem_cons_self ..))
    obtain ⟨s₂, log, bs₂, q₂, hrun₂, k₂, noted, hrest₂, hcontents₂⟩ :=
      ih k₁.ready fun b hb => fits b (List.mem_cons_of_mem _ hb)
    refine ⟨s₂, .did a ret :: log, bs₂, q₂, ?_, ⟨k₂.ready, k₁.grown.trans k₂.grown,
      fun h => k₂.slots (k₁.slots h), k₂.backend.trans k₁.backend, k₁.confined.trans k₂.confined⟩,
      .cons ⟨ret, rfl⟩ noted, ?_, ?_⟩
    · unfold runActs
      rw [hrun]
      exact hrun₂
    · rw [hrest₂, hrest, List.append_assoc]
      rfl
    · rw [hcontents₂, hcontents, k₁.backend, ← enqueue_append, ← tagged_append,
        ← Log.posts_append]
      rfl

/-- The loop of `rtbus_move_due_events` adds the events that it moves. -/
theorem moveDueFrom_contents {nowMs : UInt32} {s s' : Bus H X} {bs : List Block}
    {q : Nat → List Node} (r : Ready s bs q) {slots slots' : List DelayedEvent}
    (fit : ∀ event ∈ slots, event.payloadLen.toNat + 16 < 2 ^ 32) {ret : Ret}
    (call : moveDueFrom nowMs slots s = some (s', slots', ret)) (i : Nat) :
    contents s' =
      enqueue (contents s) (tagged s.backend ((movedFrom nowMs slots i s).map Prod.snd)) := by
  induction slots generalizing s bs q slots' i with
  | nil =>
    cases call
    exact (enqueue_nil _).symm
  | cons event rest ih =>
    have frest : ∀ e ∈ rest, e.payloadLen.toNat + 16 < 2 ^ 32 :=
      fun e he => fit e (List.mem_cons_of_mem _ he)
    unfold moveDueFrom at call
    unfold movedFrom
    by_cases hdue : event.used = false ∨ dueReached nowMs event.dueMs = false
    · rw [if_pos hdue] at call ⊢
      cases hrest : moveDueFrom nowMs rest s with
      | none =>
        rw [hrest] at call
        cases call
      | some x =>
        obtain ⟨s₁, rest₁, ret₁⟩ := x
        rw [hrest] at call
        cases call
        exact ih r frest hrest (i + 1)
    · rw [if_neg hdue] at call ⊢
      obtain ⟨s₁, ret₁, hpost, posted⟩ := emosPost_spec r event.args
        (fit event (List.mem_cons_self ..))
      have hcontents := posted.contents_eq r
      rw [hpost] at call ⊢
      cases ret₁ with
      | err e =>
        cases call
        exact hcontents
      | ok =>
        obtain ⟨bs₁, q₁, k₁⟩ := posted.kept
        dsimp only at call ⊢
        cases hrest : moveDueFrom nowMs rest s₁ with
        | none =>
          rw [hrest] at call
          cases call
        | some x =>
          obtain ⟨s₂, rest₂, ret₂⟩ := x
          rw [hrest] at call
          cases call
          rw [ih k₁.ready frest hrest (i + 1), hcontents, k₁.backend, ← enqueue_append,
            ← tagged_append]
          rfl

/-! ## Processing -/

/-- What a call leaves alone whose hook and handlers do the given acts. -/
structure Frame (acts : List Act) (s s' : Bus H X) : Prop where
  backend : s'.backend = s.backend
  confined : Confined s.heap s'.heap poolId
  quiet : acts = [] → s'.delayed = s.delayed ∧ s'.uptime = s.uptime

/-- What the stages behind the hook do to the queues `c`, with their log. -/
inductive Handed (b : Backend H) (c : Queues Ctx) (handler : List Act) :
    Outcome H → Log H → Queues Ctx → Prop
  | dispatched {p : Nat} {ctx : Ctx} {rest : List Ctx} {entry : Entry H} {f : H} {post : Log H} :
      First c p ctx rest → b.find ctx.taskId = some entry → entry.taskEntry = some f →
      Noted handler post → Handed b c handler (.dispatched entry ctx) (.called f ctx :: post)
        (enqueue (Function.update c p rest) (tagged b post.posts))
  | polled {entry : Entry H} {f : H} {ctx : Ctx} {post : Log H} : (∀ p, c p = []) →
      Noted handler post → Handed b c handler (.polled entry) (.called f ctx :: post)
        (enqueue c (tagged b post.posts))
  | idle : (∀ p, c p = []) → Handed b c handler .idle [] c

theorem dispatchOrPoll_handed (payloadMax : Nat) {s : Bus H (Log H)} {bs : List Block}
    {q : Nat → List Node} (r : Ready s bs q) (slots : SlotsFit s) (handler : List Act)
    (fits : ∀ a ∈ handler, a.Fits) :
    ∃ s' outcome log bs' q', dispatchOrPoll (handlerOf payloadMax handler) s = some (s', outcome) ∧
      Ready s' bs' q' ∧ SlotsFit s' ∧ Frame handler s s' ∧ s'.rest = s.rest ++ log ∧
      Handed s.backend (contents s) handler outcome log (contents s') := by
  have hcall : ∀ (f : H) (ctx : Ctx), ∃ s₂ post bs₂ q₂,
      handlerOf payloadMax handler f ctx s = some s₂ ∧ Kept s q s₂ bs₂ q₂ ∧ Noted handler post ∧
      Frame handler s s₂ ∧ s₂.rest = s.rest ++ (.called f ctx :: post) ∧
      contents s₂ = enqueue (contents s) (tagged s.backend post.posts) := by
    intro f ctx
    obtain ⟨s₂, post, bs₂, q₂, hrun, kept, noted, hrest, hcontents⟩ := runActs_acted payloadMax
      (s := note s (.called f ctx)) (r.congr rfl rfl rfl rfl) handler fits
    refine ⟨s₂, post, bs₂, q₂, hrun, ⟨kept.ready, kept.grown, kept.slots, kept.backend,
      kept.confined⟩, noted, ⟨kept.backend, kept.confined, fun hnone => ?_⟩, ?_, hcontents⟩
    · subst hnone
      cases hrun
      exact ⟨rfl, rfl⟩
    · rw [hrest]
      exact List.append_assoc ..
  unfold dispatchOrPoll
  by_cases hq : ∃ p, q p ≠ []
  · obtain ⟨p₀, hp₀⟩ := hq
    obtain ⟨p, n, rest, hn, above⟩ := exists_first hp₀
    obtain ⟨entry, found, _⟩ := r.tasks p n (by rw [hn]; exact List.mem_cons_self ..)
    obtain ⟨_, _, f, htask⟩ := r.registry.found _ _ found
    obtain ⟨s₂, post, bs₂, q₂, hrun, k₂, noted, frame, hrest, hcontents⟩ := hcall f n.ctx
    obtain ⟨more, hmore⟩ := k₂.grown p
    rw [hn, List.cons_append] at hmore
    obtain ⟨s₃, bs₃, hres, same, r₃⟩ := emosProcessQueuedEvent_dispatches
      (handlerOf payloadMax handler) r above hn found htask hrun k₂.ready hmore.symm
    have first : First (contents s) p n.ctx (rest.map Node.ctx) :=
      ⟨by rw [r.contents_eq, hn, List.map_cons],
        fun p' hp' => (r.contents_nil_iff p').mpr (above p' hp')⟩
    have hqueues : contents s₃ = enqueue (Function.update (contents s) p (rest.map Node.ctx))
        (tagged s.backend post.posts) := by
      funext p'
      rw [r₃.contents_eq, enqueue_apply]
      have hafter := congrFun hcontents p'
      rw [k₂.ready.contents_eq, enqueue_apply] at hafter
      by_cases hp : p' = p
      · subst hp
        rw [Function.update_self, Function.update_self]
        rw [← hmore, first.head] at hafter
        exact (List.cons.inj hafter).2
      · rw [Function.update_of_ne hp, Function.update_of_ne hp]
        exact hafter
    have hframe : Frame handler s s₃ :=
      ⟨same.backend.trans frame.backend, frame.confined.trans same.confined, fun h =>
        ⟨same.delayed.trans (frame.quiet h).1, same.uptime.trans (frame.quiet h).2⟩⟩
    refine ⟨s₃, .dispatched entry n.ctx, .called f n.ctx :: post, bs₃, _, by rw [hres], r₃, ?_,
      hframe, same.rest.trans hrest, ?_⟩
    · unfold SlotsFit
      rw [same.delayed]
      exact k₂.slots slots
    · rw [hqueues]
      exact .dispatched first found htask noted
  · have hempty : ∀ p, q p = [] := fun p => Classical.not_not.mp fun h => hq ⟨p, h⟩
    have hnone : ∀ p, contents s p = [] := fun p => (r.contents_nil_iff p).mpr (hempty p)
    rw [emosProcessQueuedEvent_idle _ r hempty]
    dsimp only
    rcases pollFrom_cases (handlerOf payloadMax handler) s s.entryCount 0 with
      hidle | ⟨entry, f, index, _, _, _, hpoll⟩
    · exact ⟨s, .idle, [], bs, q, hidle, r, slots, ⟨rfl, Confined.refl s.heap poolId,
        fun _ => ⟨rfl, rfl⟩⟩, (List.append_nil _).symm, .idle hnone⟩
    · obtain ⟨s₂, post, bs₂, q₂, hrun, k₂, noted, frame, hrest, hcontents⟩ := hcall f
        { taskId := entry.taskId, id := sysEvt sysPoll, payload := [] }
      refine ⟨{ s₂ with pollNextIndex := (index + 1) % s₂.entryCount }, .polled entry, _, bs₂, q₂,
        ?_, k₂.ready.congr rfl rfl rfl rfl, k₂.slots slots,
        ⟨frame.backend, frame.confined, frame.quiet⟩, hrest, ?_⟩
      · unfold emosProcessPollEvent
        rw [hpoll, hrun]
        rfl
      · show Handed _ _ _ _ _ (contents s₂)
        rw [hcontents]
        exact .polled hnone noted

/-- What a call of `rtbus_process` does: if the due events cannot all be moved it returns the error,
and nothing else happens; otherwise the hook runs and the stages behind it. -/
inductive Processed (b : Backend H) (c : Queues Ctx) (moved : List PostArgs)
    (hook handler : List Act) : Outcome H → Log H → Queues Ctx → Prop
  | failed (e : Errno) : Processed b c moved hook handler (.failed e) []
      (enqueue c (tagged b moved))
  | handed {pre log : Log H} {outcome : Outcome H} {c' : Queues Ctx} : Noted hook pre →
      Handed b (enqueue c (tagged b (moved ++ pre.posts))) handler outcome log c' →
      Processed b c moved hook handler outcome (pre ++ log) c'

theorem processWith_processed (payloadMax : Nat) {s : Bus H (Log H)} {bs : List Block}
    {q : Nat → List Node} (r : Ready s bs q) (slots : SlotsFit s) {hook handler : List Act}
    (fits : ∀ a ∈ hook ++ handler, a.Fits) :
    ∃ s' outcome log bs' q', processWith payloadMax hook handler s = some (s', outcome) ∧
      Ready s' bs' q' ∧ SlotsFit s' ∧ s'.backend = s.backend ∧ Confined s.heap s'.heap poolId ∧
      s'.rest = s.rest ++ log ∧
      Processed s.backend (contents s) ((moved s).map Prod.snd) hook handler outcome log
        (contents s') := by
  obtain ⟨s₁, slots₁, ret, bs₁, q₁, hres, same, r₁, g₁, hfit₁, _⟩ :=
    moveDueFrom_spec (uptime32 s) r s.delayed slots
  have hmoved := moveDueFrom_contents r slots hres 0
  change contents s₁ = enqueue (contents s) (tagged s.backend ((moved s).map Prod.snd)) at hmoved
  unfold processWith rtbusProcess moveDueEvents
  rw [hres]
  cases ret with
  | err e =>
    refine ⟨{ s₁ with delayed := slots₁ }, .failed e, [], bs₁, q₁, rfl, r₁.congr rfl rfl rfl rfl,
      hfit₁, same.backend, same.confined, ?_, ?_⟩
    · rw [List.append_nil]
      exact same.rest
    · show Processed _ _ _ _ _ _ _ (contents s₁)
      rw [hmoved]
      exact .failed e
  | ok =>
    have hcount : s₁.entryCount ≠ 0 := Nat.pos_iff_ne_zero.mp r₁.count_pos
    obtain ⟨s₂, pre, bs₂, q₂, hrun, kept, noted, hrest, hcontents⟩ := runActs_acted payloadMax
      (s := { s₁ with delayed := slots₁ }) (r₁.congr rfl rfl rfl rfl) hook
      fun a ha => fits a (List.mem_append_left _ ha)
    obtain ⟨s₃, outcome, log, bs₃, q₃, hprocess, r₃, slots₃, frame, hrest₃, handed⟩ :=
      dispatchOrPoll_handed payloadMax kept.ready (kept.slots hfit₁) handler
        fun a ha => fits a (List.mem_append_right _ ha)
    have hback₂ : s₂.backend = s.backend := kept.backend.trans same.backend
    have hqueues : contents s₂ = enqueue (contents s)
        (tagged s.backend ((moved s).map Prod.snd ++ pre.posts)) := by
      rw [tagged_append, enqueue_append, ← hmoved, ← same.backend]
      exact hcontents
    refine ⟨s₃, outcome, pre ++ log, bs₃, q₃, ?_, r₃, slots₃, frame.backend.trans hback₂,
      same.confined.trans (kept.confined.trans frame.confined), ?_, ?_⟩
    · unfold emosProcess hookOf
      simp only [if_neg hcount, hrun, Option.map_some]
      exact hprocess
    · rw [hrest₃, hrest, List.append_assoc]
      show s₁.rest ++ _ = _
      rw [same.rest]
    · rw [hqueues, hback₂] at handed
      exact .handed noted handed

/-! ## Runs -/

/-- An operation is a step of the priority queue. -/
theorem observed_simulates {s s' : Bus H (Log H)} {x : Observation H} {bs : List Block}
    {q : Nat → List Node} (r : Ready s bs q) (slots : SlotsFit s)
    (step : Bus.Observed payloadMax s x s') :
    (∃ bs' q', Ready s' bs' q') ∧ SlotsFit s' ∧ s'.backend = s.backend ∧
      ∃ l, Shows s.backend x l ∧ Priority.Step (contents s) l (contents s') := by
  obtain ⟨op, moves, log⟩ := x
  obtain ⟨fits, hrun, hmoves, hrest⟩ := step
  dsimp only at fits hrun hmoves hrest
  subst hmoves
  cases op with
  | act a =>
    obtain ⟨s₁, ret, bs₁, q₁, hres, kept, noted, hrest₁, hcontents⟩ :=
      Act.run_acted payloadMax r a (fits a (List.mem_singleton.mpr rfl))
    obtain rfl := Option.some.inj (hrun.symm.trans hres)
    obtain rfl := List.append_cancel_left (hrest.symm.trans hrest₁)
    refine ⟨⟨bs₁, q₁, kept.ready⟩, kept.slots slots, kept.backend, _, .arrive noted.calls_eq, ?_⟩
    rw [hcontents]
    exact .arrive _
  | process hook handler =>
    obtain ⟨s₁, outcome, log₁, bs₁, q₁, hres, r₁, slots₁, hback, _, hrest₁, processed⟩ :=
      processWith_processed payloadMax r slots fits
    have hrun₁ : (Op.process hook handler).run payloadMax s = some s₁ := by
      simp only [Op.run, hres, Option.map_some]
    obtain rfl := Option.some.inj (hrun.symm.trans hrun₁)
    obtain rfl := List.append_cancel_left (hrest.symm.trans hrest₁)
    refine ⟨⟨bs₁, q₁, r₁⟩, slots₁, hback, ?_⟩
    change Processed _ _ (Op.moves s (.process hook handler)) _ _ _ _ _ at processed
    generalize Op.moves s (.process hook handler) = moves at processed ⊢
    generalize contents s' = c' at processed
    cases processed with
    | failed e =>
      refine ⟨_, .arrive rfl, ?_⟩
      unfold Observation.arrivals
      rw [show Log.posts ([] : Log H) = [] from rfl, List.append_nil]
      exact .arrive _
    | handed noted handed =>
      cases handed with
      | dispatched first found htask noted' =>
        exact ⟨_, .serve noted.calls_eq noted'.calls_eq found htask, .serve first⟩
      | polled empty noted' =>
        refine ⟨_, .rest noted.calls_eq noted'.calls_eq, ?_⟩
        rw [← enqueue_append]
        exact .rest empty
      | idle empty =>
        rw [List.append_nil]
        exact ⟨_, .arrive noted.calls_eq, .arrive _⟩

/-- A run of the bus is a run of the priority queue. -/
theorem trace_simulates {s s' : Bus H (Log H)} {xs : List (Observation H)}
    (run : Run.Trace (Bus.Observed payloadMax) s xs s') (ready : ∃ bs q, Ready s bs q)
    (slots : SlotsFit s) :
    ∃ ls, List.Forall₂ (Shows s.backend) xs ls ∧
      Run.Trace Priority.Step (contents s) ls (contents s') := by
  induction run with
  | nil => exact ⟨[], .nil, .nil⟩
  | cons step _ ih =>
    obtain ⟨bs, q, r⟩ := ready
    obtain ⟨ready₁, slots₁, hback, l, shows, hstep⟩ := observed_simulates r slots step
    obtain ⟨ls, hshows, hrun⟩ := ih ready₁ slots₁
    rw [hback] at hshows
    exact ⟨l :: ls, .cons shows hshows, .cons hstep hrun⟩

theorem arrived_eq {b : Backend H} {xs : List (Observation H)} {ls : List (Label Ctx)}
    (h : List.Forall₂ (Shows b) xs ls) :
    Priority.arrivals ls = arrived b xs ∧ Priority.turns ls = handled xs := by
  induction h with
  | nil => exact ⟨rfl, rfl⟩
  | cons hd _ ih =>
    refine ⟨?_, ?_⟩
    · simp only [Priority.arrivals, arrived, List.flatMap_cons, hd.arrivals_eq] at ih ⊢
      rw [ih.1]
    · simp only [Priority.turns, handled, hd.turns_eq] at ih ⊢
      rw [ih.2]

/-- What matches a list with something inside is such a list. -/
theorem forall₂_split {α β : Type _} {R : α → β → Prop} {xs : List α} {ls₁ ls₂ : List β} {l : β}
    (h : List.Forall₂ R xs (ls₁ ++ l :: ls₂)) :
    ∃ xs₁ x xs₂, xs = xs₁ ++ x :: xs₂ ∧ List.Forall₂ R xs₁ ls₁ ∧ R x l := by
  have htake := List.forall₂_take_append xs ls₁ _ h
  have hdrop := List.forall₂_drop_append xs ls₁ _ h
  obtain ⟨x, xs₂, hx, _, hsplit⟩ := List.forall₂_cons_right_iff.mp hdrop
  exact ⟨_, x, xs₂, by rw [← hsplit, List.take_append_drop], htake, hx⟩

/-- Along any run from any reachable state, a queued event either waits, and handler calls and places
in line have added up; or it has been handed to its task with its context, by the call in front of
which as many handlers were called as there were events ahead of it, those that overtook it
included. -/
theorem served_in_turn (payloadMax : Nat) (s s' : Bus H (Log H)) (h : s.Reachable payloadMax)
    (xs : List (Observation H)) (run : Run.Trace (Bus.Observed payloadMax) s xs s') (p : Nat)
    (front behind : List Ctx) (ctx : Ctx) (place : contents s p = front ++ ctx :: behind) :
    (∃ front', front' <:+ front ∧
        contents s' p = front' ++ ctx :: (behind ++ ofPriority p (arrived s.backend xs)) ∧
        handled xs + (upTo (contents s') p).length + front'.length =
          (upTo (contents s) p).length + front.length + overtaking p (arrived s.backend xs)) ∨
      ∃ (before : List (Observation H)) (op : Op) (moved : List PostArgs) (pre post : Log H)
        (after : List (Observation H)) (entry : Entry H) (f : H),
        xs = before ++ ⟨op, moved, pre ++ .called f ctx :: post⟩ :: after ∧
        s.backend.find ctx.taskId = some entry ∧ entry.taskEntry = some f ∧ pre.calls = 0 ∧
        handled before = (upTo (contents s) p).length + front.length +
          overtaking p (arrived s.backend before ++ tagged s.backend (moved ++ pre.posts)) := by
  obtain ⟨ready, slots⟩ := reachable_ready h
  obtain ⟨ls, hshows, hrun⟩ := trace_simulates run ready slots
  obtain ⟨harr, hturns⟩ := arrived_eq hshows
  rcases trace_waits hrun place with waiting | ⟨before, pre, post, after, rfl, hcount⟩
  · rw [harr, hturns] at waiting
    exact .inl waiting
  · obtain ⟨xs₁, x, xs₂, rfl, hbefore, hserve⟩ := forall₂_split hshows
    obtain ⟨harr₁, hturns₁⟩ := arrived_eq hbefore
    rw [harr₁, hturns₁] at hcount
    cases hserve with
    | serve hpre hpost found htask =>
      exact .inr ⟨xs₁, _, _, _, _, xs₂, _, _, rfl, found, htask, hpre, hcount⟩

/-- The `INIT` event of the bus with one task is handed over by the first call. -/
theorem init_served_first :
    ∃ (s s' : Bus Unit (Log Unit)) (x : Observation Unit) (pre post : Log Unit),
      s.Reachable 32 ∧ Run.Trace (Bus.Observed 32) s [x] s' ∧
        x.log = pre ++ .called () ⟨1, ctxSysShift sysInit, []⟩ :: post := by
  obtain ⟨s, start, place, s', hrun, hrest, hempty⟩ : ∃ s : Bus Unit (Log Unit), s.Start ∧
      contents s 0 = [] ++ ⟨1, ctxSysShift sysInit, []⟩ :: [] ∧
      ∃ s', (Op.process [] []).run 32 s = some s' ∧ (∃ log, s'.rest = s.rest ++ log) ∧
        contents s' 0 = [] :=
    ⟨_, ⟨Bus.boot (.table none), 0x20001000, 256, some oneTask, by decide, rfl⟩, by decide +kernel,
      _, rfl, ⟨_, rfl⟩, by decide +kernel⟩
  obtain ⟨log, hlog⟩ := hrest
  have hs : s.Reachable 32 := .start start
  have run : Run.Trace (Bus.Observed 32) s [⟨.process [] [], _, log⟩] s' :=
    .cons ⟨fun _ ha => (by cases ha), hrun, rfl, hlog⟩ .nil
  rcases served_in_turn 32 s s' hs _ run 0 [] [] _ place with
    ⟨front', _, hwaits, _⟩ | ⟨before, op, moved, pre, post, after, entry, f, hsplit, _⟩
  · rw [hempty] at hwaits
    simp at hwaits
  · refine ⟨s, s', _, pre, post, hs, run, ?_⟩
    cases before with
    | nil => exact congrArg Observation.log (List.cons.inj hsplit).1
    | cons y ys =>
      have := (List.cons.inj hsplit).2
      simp at this

end Rtbus.Emos
