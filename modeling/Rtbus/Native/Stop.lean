import Rtbus.Native.Delivery

/-!
# Requests and the incarnation that posted them

`native_service_force_stop_thread` purges the message queue of the application, but not the task
queues, where requests may wait whose results are to be written to application RAM. They are served
after the next application has been started, and their results are written into its memory.

The law holds for the runs in which no such request waits in a task queue when the application is
stopped: then every result that is written belongs to a request of the era in which it is written.
An era ends with each force stop, and `native_service_start` creates no second thread in an era, so
an era has one incarnation of the application at most.
-/

namespace Rtbus.Native

open Rtbus.Emos Rtbus.Pool Rtbus.Tiling

/-- A context without a payload. The posts of the runtime itself, `RTBUS_CLI_INPUT`,
`APPLICATION_DIAGNOSTICS_CLI` and the `INIT` events, are of this kind. -/
def Bare (ctx : Ctx) : Prop := ctx.payload = []

/-- Any step; what the runtime posts itself has no payload. -/
def AnyStep (cfg : Config) (s : System) (e : Event) (s' : System) : Prop :=
  e.Allowed Bare ∧ System.step cfg e s = some s'

/-- A step that stops the application by force, if it does, when no request waits in a task queue
that its task would complete. -/
def CleanStep (cfg : Config) (s : System) (e : Event) (s' : System) : Prop :=
  AnyStep cfg s e s' ∧ (s'.bus.rest.era ≠ s.bus.rest.era →
    ∀ p r, some r ∈ s.tags p → ¬ CtxCompletes cfg s.bus.backend r.msg.ctx)

/-- A context without a payload is no request with a result. -/
theorem Bare.not_completes {cfg : Config} {b : Backend Task} {ctx : Ctx} (h : Bare ctx) :
    ¬ CtxCompletes cfg b ctx := by
  rintro ⟨task, _, addr, haddr, _⟩
  unfold Task.resultAddr at haddr
  rw [show ctx.payload.length = 0 from congrArg List.length h] at haddr
  split at haddr
  · rename_i hsize
    unfold Task.requestSize at hsize
    repeat' split at hsize
    all_goals cases hsize
  · cases haddr

/-- A context is served by one task. -/
theorem ServedBy.unique {b : Backend Task} {ctx : Ctx} {task task' : Task}
    (h : ServedBy b ctx task) (h' : ServedBy b ctx task') : task = task' := by
  obtain ⟨entry, hfind, htask⟩ := h
  obtain ⟨entry', hfind', htask'⟩ := h'
  obtain rfl := Option.some.inj (hfind.symm.trans hfind')
  exact Option.some.inj (htask.symm.trans htask')

/-- The rules of the courier that the system is when nothing that completes waits at a stop. -/
def eraRules (cfg : Config) (b : Backend Task) : Courier.Rules Request :=
  let R := rules cfg b Bare (fun _ => True) fun _ => False
  { R with mayStop := fun c => c.Clear R }

/-- The invariant of the runs. -/
theorem era_invariant (cfg : Config) {s : System} (h : Run.Reachable System.Start (CleanStep cfg) s) :
    (∃ bs q, Tracked Bare s bs q) ∧ s.view.Timely (eraRules cfg s.bus.backend) := by
  refine h.invariant (I := fun s => (∃ bs q, Tracked Bare s bs q) ∧
    s.view.Timely (eraRules cfg s.bus.backend)) ?_ ?_
  · intro s start
    obtain ⟨_, hwait, hqueued, _, hserving, _, hcompletions⟩ := start.view
    refine ⟨start.tracked fun entry => rfl, fun r hr => ?_, fun p r hr => ?_, fun r hr => ?_,
      fun d hd => ?_⟩
    · rw [hwait] at hr
      cases hr
    · cases hqueued p _ hr
    · rw [hserving] at hr
      cases hr
    · rw [hcompletions] at hd
      cases hd
  · rintro s e s' ⟨⟨bs, q, t⟩, timely⟩ ⟨⟨allowed, hstep⟩, clean⟩
    obtain ⟨t', hback, hview⟩ := step_refines (fun _ => True)
      (eraRules cfg s.bus.backend).mayStop t allowed (fun _ _ _ _ _ => trivial)
      (fun call hpc hnone hera => by
        refine ⟨fun p r hr => ?_, fun r hr => ?_⟩
        · rintro ⟨ctx, rfl, hc⟩
          exact clean hera p r hr hc
        · -- the handler that stops the application serves no request with a result
          rintro ⟨ctx, rfl, task, hserved, addr, haddr, _⟩
          obtain ⟨_, hcarries, hserved'⟩ := t.handling call hpc
          change s.pc.serving = some (some r) at hr
          rw [hpc] at hr
          rw [Option.some.inj hr] at hcarries
          have hctx : call.ctx = r.msg.ctx := hcarries
          rw [hctx] at hserved' hnone
          rw [hserved'.unique hserved, haddr] at hnone
          cases hnone) hstep
    refine ⟨t', ?_⟩
    rw [hback]
    rcases hview with hview | hview
    · rw [hview]
      exact timely
    · refine timely.step (fun ⟨ctx, hbare, hc⟩ => Bare.not_completes hbare hc)
        (fun _ h => h) hview

/-- Every result that was written belongs to a request of the era in which it was written, and the
thread that posted the requests of the current era is the one that exists, in every state of every
run in which no request that its task would complete waits in a task queue at a force stop. -/
theorem completions_of_current_era (cfg : Config) {s : System}
    (h : Run.Reachable System.Start (CleanStep cfg) s) :
    (∀ d ∈ s.completions, ∃ r ∈ s.bus.rest.accepted, d.request = some r ∧ r.era = d.era) ∧
      ∀ r ∈ s.bus.rest.accepted, r.era = s.bus.rest.era → s.bus.rest.threadId = true := by
  obtain ⟨⟨bs, q, t⟩, timely⟩ := era_invariant cfg h
  refine ⟨fun d hd => ?_, fun r hr => (t.history r hr).2.2⟩
  obtain ⟨r, hr, hreq, hera⟩ := timely.completions (d.request, d.era)
    (List.mem_map.mpr ⟨d, hd, rfl⟩)
  exact ⟨r, hr, hreq, hera⟩

/-! ## Two runs -/

/-- A step whose posts of the runtime are bare. -/
def bareCheck (e : Event) : Bool :=
  match e with
  | .post args => decide (args.payloadLen.toNat + 16 < 2 ^ 32) && decide (args.ctx.payload = [])
  | .postDelay _ _ => false
  | _ => true

theorem anyStep_of_check {cfg : Config} {s s' : System} {e : Event}
    (h : System.step cfg e s = some s') (check : bareCheck e = true) : AnyStep cfg s e s' := by
  cases e with
  | post args =>
    obtain ⟨fits, bare⟩ := Bool.and_eq_true_iff.mp check
    have fits : args.payloadLen.toNat + 16 < 2 ^ 32 := of_decide_eq_true fits
    have bare : args.ctx.payload = [] := of_decide_eq_true bare
    exact ⟨⟨fits, bare⟩, h⟩
  | postDelay args delayMs => cases check
  | _ => exact ⟨trivial, h⟩

/-- A step that ends no era, or leaves no request in the task queues behind. -/
def emptyCheck (s : System) (s' : System) : Bool :=
  s'.bus.rest.era = s.bus.rest.era ||
    (List.range taskPriorityNumber).all fun p => (s.tags p).all Option.isNone

theorem cleanStep_of_check {cfg : Config} {s s' : System} {e : Event} {bs : List Block}
    {q : Nat → List Node} (t : Tracked Bare s bs q) (h : AnyStep cfg s e s')
    (check : emptyCheck s s' = true) : CleanStep cfg s e s' := by
  refine ⟨h, fun hera p r hr => ?_⟩
  rcases Bool.or_eq_true_iff.mp check with hsame | hempty
  · exact absurd (of_decide_eq_true hsame) hera
  · by_cases hp : p < taskPriorityNumber
    · have := List.all_eq_true.mp (List.all_eq_true.mp hempty p (List.mem_range.mpr hp)) _ hr
      cases this
    · have hq : s.pc.behind p (q p) = [] := by
        rw [t.ready.queued.high p (Nat.le_of_not_lt hp)]
        cases s.pc with
        | handling call => exact ite_self _
        | _ => rfl
      have htags := t.tags p
      rw [hq] at htags
      rw [List.forall₂_nil_left_iff.mp htags] at hr
      cases hr

/-- `APPLICATION_DIAG_ADD` of 1 and 2 with the result at `0x20020000`. -/
def addPost : PostArgs :=
  { taskId := 0, ctxId := 1, payload := some [0, 0, 2, 0x20, 1, 0, 0, 0, 2, 0, 0, 0]
    payloadLen := 12
    readable := by
      intro bytes h
      cases h
      decide }

/-- The application is started by the `INIT` event of the diagnostics task, and the command line
gets input. -/
def startThenInput : List Event :=
  untilDrain ++ [.drain, .dispatch, .start loadedOk, .finish] ++ untilDrain ++
    [.drain, .dispatch, .finish, .post (.bare 1 1)]

/-- The command line stops the application for an upgrade and starts the new one. -/
def upgrade : List Event := [.dispatch, .handoff [(0, false)], .resume loadedOk, .finish]

/-- An application that posts a request after the upgrade gets its result. -/
theorem completion_after_upgrade : ∃ s, Run.Reachable System.Start (CleanStep defaultConfig) s ∧
    s.completions ≠ [] ∧
      (∀ d ∈ s.completions, ∃ r ∈ s.bus.rest.accepted, d.request = some r ∧ r.era = d.era) ∧
      ∀ r ∈ s.bus.rest.accepted, r.era = s.bus.rest.era → s.bus.rest.threadId = true := by
  obtain ⟨s₀, s, start, run, htest⟩ := exists_of_run
    (fun s e s' => bareCheck e && emptyCheck s s') defaultConfig
    (startThenInput ++ untilDrain ++ [.drain] ++ upgrade ++ [.appPost addPost] ++ untilDrain ++
      [.drain, .drain, .dispatch, .complete 3]) (fun s => !s.completions.isEmpty)
    (by decide +kernel)
  have reach : Run.Reachable System.Start (CleanStep defaultConfig) s := by
    refine reachable_checkedRun (fun s e s' h step check => ?_) (.start start) run
    obtain ⟨hbare, hempty⟩ := Bool.and_eq_true_iff.mp check
    obtain ⟨⟨bs, q, t⟩, _⟩ := era_invariant defaultConfig h
    exact cleanStep_of_check t (anyStep_of_check step hbare) hempty
  refine ⟨s, reach, fun hnil => ?_, completions_of_current_era defaultConfig reach⟩
  rw [hnil] at htest
  cases htest

/-- A request that is behind the input of the command line is in a task queue when the command line
stops the application, and its result is written into the RAM of the next application. -/
theorem completion_of_earlier_era :
    ¬ ∀ s : System, Run.Reachable System.Start (AnyStep defaultConfig) s →
      ∀ d ∈ s.completions, ∃ r ∈ s.bus.rest.accepted, d.request = some r ∧ r.era = d.era := by
  intro always
  obtain ⟨s₀, s, start, run, htest⟩ := exists_of_run (fun _ e _ => bareCheck e) defaultConfig
    (startThenInput ++ [.appPost addPost] ++ untilDrain ++ [.drain, .drain] ++ upgrade ++
      untilDrain ++ [.drain, .dispatch, .complete 3])
    (fun s => s.completions.any fun d => d.request.all fun r => decide (r.era ≠ d.era))
    (by decide +kernel)
  have reach : Run.Reachable System.Start (AnyStep defaultConfig) s :=
    reachable_checkedRun (fun _ _ _ _ step check => anyStep_of_check step check) (.start start) run
  obtain ⟨d, hd, hother⟩ := List.any_eq_true.mp htest
  obtain ⟨r, _, hreq, hera⟩ := always s reach d hd
  rw [hreq] at hother
  exact of_decide_eq_true hother hera

end Rtbus.Native
