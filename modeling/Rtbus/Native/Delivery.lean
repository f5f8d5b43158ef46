import Rtbus.Base.Run
import Rtbus.Native.Tracking

/-!
# What becomes of an accepted request

`rtbus_process_async_posts` takes a message from the queue of the application before it knows
whether the pool has room for the event. If it has not, the message is in neither place any more.

So the law holds for the runs in which the pool has room whenever a message for a registered task is
taken: every request that `native_api_rtbus_post` took is then on the message queue, or in a task
queue, or was handed to its task exactly once.
-/

namespace Rtbus.Native

open Rtbus.Emos Rtbus.Pool Rtbus.Tiling

/-- The request is for a task that the registry knows. -/
def Registered (s : System) (r : Request) : Prop := (s.bus.backend.find r.msg.taskId).isSome = true

/-- The pool has room for the event of a message. -/
def RoomFor (s : System) (msg : PostMsg) : Prop :=
  ∃ bs, Valid s.bus.heap poolId bs ∧ (accepts s.bus bs msg.args).isSome = true

/-- A step during which the application is not stopped by force. -/
def LiveStep (cfg : Config) (s : System) (e : Event) (s' : System) : Prop :=
  e.Allowed (fun _ => True) ∧ System.step cfg e s = some s' ∧ s'.bus.rest.era = s.bus.rest.era

/-- A step in which the pool has room for the message that is taken, if one for a registered task
is. -/
def RoomyStep (cfg : Config) (s : System) (e : Event) (s' : System) : Prop :=
  LiveStep cfg s e s' ∧ (e = .drain → ∀ r rest, s.bus.rest.postMsgq = r :: rest →
    Registered s r → RoomFor s r.msg)

/-- An event in memory is the request, and its handler has not been called yet. -/
def InTaskQueue (s : System) (r : Request) : Prop :=
  ∃ bs q p n, Ready s.bus bs q ∧ (n, some r) ∈ (s.pc.behind p (q p)).zip (s.tags p) ∧
    n.ctx = r.msg.ctx

/-- The calls of handlers with a request. -/
def dispatches (s : System) (r : Request) : List Dispatch :=
  s.calls.filter fun d => d.request = some r

/-- A request is on the message queue, or in a task queue, or was handed to its task exactly once;
and it was never handed over twice. -/
def Accounted (s : System) (r : Request) : Prop :=
  (r ∈ s.bus.rest.postMsgq ∨ InTaskQueue s r ∨
    ∃ task, dispatches s r = [⟨some r, task, r.msg.ctx⟩] ∧
      ServedBy s.bus.backend r.msg.ctx task) ∧
  (dispatches s r).length ≤ 1

/-- The requests that may be refused when they are taken from the message queue. -/
def Unregistered (b : Backend Task) (r : Request) : Prop := b.find r.msg.taskId = none

/-- The invariant of the runs. -/
theorem delivery_invariant (cfg : Config) {s : System}
    (h : Run.Reachable System.Start (RoomyStep cfg) s) :
    (∃ bs q, Tracked (fun _ => True) s bs q) ∧ s.view.Conserved taskPriorityNumber ∧
      ∀ r ∈ s.refused, Unregistered s.bus.backend r := by
  refine h.invariant (I := fun s => (∃ bs q, Tracked (fun _ => True) s bs q) ∧
    s.view.Conserved taskPriorityNumber ∧ ∀ r ∈ s.refused, Unregistered s.bus.backend r) ?_ ?_
  · intro s start
    obtain ⟨hacc, hwait, hqueued, hserved, _, hrefused, _⟩ := start.view
    refine ⟨start.tracked fun _ => trivial, ⟨by rw [hacc]; exact .nil, fun r => ?_⟩, fun r hr => ?_⟩
    · have hcount : Courier.queuedCount taskPriorityNumber s.view.queued r = 0 := by
        refine Finset.sum_eq_zero fun p _ => List.count_eq_zero.mpr fun hmem => ?_
        cases hqueued p _ hmem
      rw [hacc, hwait, hserved, hrefused, hcount]
      rfl
    · change r ∈ s.view.refused at hr
      rw [hrefused] at hr
      cases hr
  · rintro s e s' ⟨⟨bs, q, t⟩, conserved, refused⟩ ⟨⟨allowed, hstep, hera⟩, room⟩
    obtain ⟨t', hback, hview⟩ := step_refines (Unregistered s.bus.backend) (fun _ => False) t
      allowed (fun r rest he hmsgq hnone => by
        cases hfind : s.bus.backend.find r.msg.taskId with
        | none => exact hfind
        | some entry =>
          obtain ⟨bs', v, hsome⟩ := room he r rest hmsgq (by rw [Registered, hfind]; rfl)
          rw [t.ready.queued.valid.tiles.unique v.tiles] at hnone
          rw [hnone] at hsome
          cases hsome) (fun _ _ _ hne => hne hera) hstep
    refine ⟨t', ?_⟩
    rw [hback]
    rcases hview with hview | hview
    · rw [hview]
      refine ⟨conserved, ?_⟩
      change ∀ r ∈ s'.view.refused, _
      rw [hview]
      exact refused
    · exact ⟨conserved.step (fun _ h => h) hview, hview.refused refused⟩

/-- Every request that was accepted for a registered task is accounted for, in every state of every
run without a force stop in which the pool has room for the messages that are taken from the
queue. -/
theorem requests_accounted_of_room (cfg : Config) {s : System}
    (h : Run.Reachable System.Start (RoomyStep cfg) s) {r : Request}
    (accepted : r ∈ s.bus.rest.accepted) (registered : Registered s r) : Accounted s r := by
  obtain ⟨⟨bs, q, t⟩, conserved, refused⟩ := delivery_invariant cfg h
  have kept : ¬ Unregistered s.bus.backend r := by
    intro hnone
    rw [Registered, hnone] at registered
    cases registered
  have hplace := conserved.place
    (R := rules cfg s.bus.backend (fun _ => True) (Unregistered s.bus.backend) fun _ => False)
    refused accepted kept
  have hserved : s.view.served.count (some r) = (dispatches s r).length := by
    unfold dispatches System.view
    rw [← List.countP_eq_length_filter, List.count, List.countP_map]
    exact List.countP_congr fun d _ => by simp
  rw [hserved] at hplace
  refine ⟨?_, by omega⟩
  by_cases hwait : r ∈ s.bus.rest.postMsgq
  · exact .inl hwait
  · right
    have hnot : s.view.waiting.count r = 0 := List.count_eq_zero.mpr hwait
    by_cases hcalled : (dispatches s r).length = 1
    · right
      obtain ⟨d, hd⟩ := List.length_eq_one_iff.mp hcalled
      have hmem : d ∈ dispatches s r := by
        rw [hd]
        exact List.mem_singleton.mpr rfl
      obtain ⟨hmem, hreq⟩ := List.mem_filter.mp hmem
      obtain ⟨request, task, ctx⟩ := d
      obtain rfl : request = some r := of_decide_eq_true hreq
      obtain ⟨rfl, hserved⟩ := t.calls _ hmem
      exact ⟨task, hd, hserved⟩
    · left
      have hpos : Courier.queuedCount taskPriorityNumber s.view.queued r ≠ 0 := by omega
      obtain ⟨p, _, hp⟩ := Finset.exists_ne_zero_of_sum_ne_zero hpos
      have hmem : some r ∈ s.tags p := List.count_pos_iff.mp (Nat.pos_of_ne_zero hp)
      obtain ⟨i, hi, hget⟩ := List.mem_iff_getElem.mp hmem
      have htags := t.tags p
      have hi' : i < (s.pc.behind p (q p)).length := by rw [htags.length_eq]; exact hi
      refine ⟨bs, q, p, (s.pc.behind p (q p))[i], t.ready, ?_, ?_⟩
      · rw [← hget]
        exact List.mem_iff_getElem.mpr ⟨i, by rw [List.length_zip]; omega, List.getElem_zip⟩
      · have := htags.get hi' hi
        simp only [List.get_eq_getElem, hget] at this
        exact this

/-! ## Two runs -/

/-- If a step refuses no message, the pool had room for the one it took. -/
theorem roomyStep_of_refused {cfg : Config} {s s' : System} {e : Event} {bs : List Block}
    {q : Nat → List Node} (t : Tracked (fun _ => True) s bs q) (h : LiveStep cfg s e s')
    (same : s'.refused.length = s.refused.length) : RoomyStep cfg s e s' := by
  refine ⟨h, fun he r rest hmsgq _ => ⟨bs, t.ready.queued.valid, ?_⟩⟩
  subst he
  have hdrain : s.drain = some s' := h.2.1
  unfold System.drain at hdrain
  split at hdrain
  · rw [hmsgq] at hdrain
    have t₀ : Tracked (fun _ => True) (s.setService { s.bus.rest with postMsgq := rest }) bs q :=
      t.of_service t.history
    obtain ⟨bus, ret, hres, _, hcase⟩ := rtbusPost_spec t₀.ready r.msg.args r.msg.args_fits
    simp only [hres] at hdrain
    cases ret with
    | err e =>
      obtain rfl := Option.some.inj hdrain
      simp at same
    | ok =>
      rcases hcase with ⟨_, ⟨e, he⟩, _⟩ | ⟨bs', _, _, hsome, _⟩
      · cases he
      · exact Option.isSome_iff_exists.mpr ⟨bs', hsome⟩
  · cases hdrain

/-- The tasks of the diagnostics and of the command line. -/
def twoTasks : EntryTable Task :=
  { entries := [⟨0, 2, some .diagnostics, true, false⟩, ⟨1, 2, some .cli, true, false⟩]
    count_lt := by decide }

/-- The defaults of the build, with application RAM at `0x20020000`. -/
def defaultConfig : Config :=
  { delayedPayloadMax := 32, diagnosticsService := true, ramBase := 0x20020000, ramSize := 0x1000 }

/-- A bus after boot, with eight slots for delayed events. -/
def bootBus : Bus Task Service :=
  { heap := { mem := fun _ => 0, pools := fun _ => PoolVars.zero }
    taskTbl := fun _ => null
    entryCount := 0
    pollNextIndex := 0
    backend := .table none
    eventSem := 0
    delayed := List.replicate 8 DelayedEvent.zero
    uptime := 0
    rest := Service.boot }

/-- The system that `rtbus_init` leaves with these tasks and a pool of 256 bytes. -/
def bootSystem : Option System :=
  match rtbusInit bootBus 0x20001000 256 (some twoTasks) with
  | some (bus, .ok) =>
    some { bus := bus, pc := .idle, calls := [], refused := [], completions := []
           tags := fun p =>
             ((Fifo.initial bus.backend bus.entryCount).pending p).map fun _ => none }
  | _ => none

theorem bootSystem_start {s : System} (h : bootSystem = some s) : s.Start := by
  unfold bootSystem at h
  split at h
  · rename_i bus hinit
    cases h
    exact ⟨bootBus, 0x20001000, 256, some twoTasks, by decide, rfl, hinit, rfl⟩
  · cases h

/-- `rtbus_process` up to the draining of the messages, with nothing due. -/
def untilDrain : List Event := .process :: List.replicate 9 .move

/-- A `native_load` that succeeds. -/
def loadedOk : Loaded := { ret := .ok, entry := 0x08020080, ram := fun _ => 0 }

/-- A post of 32 bytes to the diagnostics task. -/
def bigPost : PostArgs :=
  { taskId := 0, ctxId := 9, payload := some (List.replicate 32 7), payloadLen := 32
    readable := by
      intro bytes h
      cases h
      decide }

/-- The `INIT` event of the diagnostics task starts the application, which posts before the handler
returns. -/
def startAndPost (posts : Nat) : List Event :=
  untilDrain ++ [.drain, .dispatch, .start loadedOk] ++ List.replicate posts (.appPost bigPost) ++
    [.finish]

/-- A checked run of the booted system that ends as tested. -/
theorem exists_of_run (check : System → Event → System → Bool) (cfg : Config) (es : List Event)
    (test : System → Bool) (h : (bootSystem.bind (System.checkedRun check cfg es)).any test = true) :
    ∃ s₀ s : System, s₀.Start ∧ s₀.checkedRun check cfg es = some s ∧ test s = true := by
  cases hrun : bootSystem.bind (System.checkedRun check cfg es) with
  | none =>
    rw [hrun] at h
    cases h
  | some s =>
    rw [hrun] at h
    obtain ⟨s₀, h₀, hlive⟩ := Option.bind_eq_some_iff.mp hrun
    exact ⟨s₀, s, bootSystem_start h₀, hlive, h⟩

/-- A step without posts of the runtime and without a force stop. -/
def liveCheck (s : System) (e : Event) (s' : System) : Bool :=
  match e with
  | .post _ => false
  | .postDelay _ _ => false
  | _ => s'.bus.rest.era = s.bus.rest.era

theorem liveStep_of_check {cfg : Config} {s s' : System} {e : Event}
    (h : System.step cfg e s = some s') (check : liveCheck s e s' = true) : LiveStep cfg s e s' := by
  cases e with
  | post args => cases check
  | postDelay args delayMs => cases check
  | _ => exact ⟨trivial, h, of_decide_eq_true check⟩

/-- With one post the pool has room, and the diagnostics task gets it after the `INIT` event of the
command line. -/
theorem request_dispatched_when_room : ∃ s r,
    Run.Reachable System.Start (RoomyStep defaultConfig) s ∧ r ∈ s.bus.rest.accepted ∧
      Registered s r ∧ (dispatches s r).length = 1 ∧ Accounted s r := by
  obtain ⟨s₀, s, start, run, htest⟩ := exists_of_run
    (fun s e s' => liveCheck s e s' && decide (s'.refused.length = s.refused.length)) defaultConfig
    (startAndPost 1 ++ untilDrain ++ [.drain, .drain, .dispatch, .finish] ++ untilDrain ++
      [.drain, .dispatch])
    (fun s => s.bus.rest.accepted.any fun r => (s.bus.backend.find r.msg.taskId).isSome &&
      decide ((dispatches s r).length = 1)) (by decide +kernel)
  obtain ⟨r, hr, htest⟩ := List.any_eq_true.mp htest
  obtain ⟨registered, once⟩ := Bool.and_eq_true_iff.mp htest
  have reach : Run.Reachable System.Start (RoomyStep defaultConfig) s := by
    refine reachable_checkedRun (fun s e s' h step check => ?_) (.start start) run
    obtain ⟨hlive, hsame⟩ := Bool.and_eq_true_iff.mp check
    obtain ⟨⟨bs, q, t⟩, _⟩ := delivery_invariant defaultConfig h
    exact roomyStep_of_refused t (liveStep_of_check step hlive) (of_decide_eq_true hsame)
  exact ⟨s, r, reach, hr, registered, of_decide_eq_true once,
    requests_accounted_of_room defaultConfig reach hr registered⟩

/-- Whether a message is on no queue and was not dispatched, though its task is registered. -/
def lost (s : System) (r : Request) : Bool :=
  (s.bus.backend.find r.msg.taskId).isSome && s.bus.rest.postMsgq.isEmpty &&
    (List.range taskPriorityNumber).all (fun p => some r ∉ s.tags p) && (dispatches s r).isEmpty

/-- The fourth of four messages finds the pool full, with the `INIT` event of the command line and
the first three messages in it, and is lost. -/
theorem request_lost_when_pool_full :
    ¬ ∀ s : System, Run.Reachable System.Start (LiveStep defaultConfig) s →
      ∀ r ∈ s.bus.rest.accepted, Registered s r → Accounted s r := by
  intro always
  obtain ⟨s₀, s, start, run, htest⟩ := exists_of_run liveCheck defaultConfig
    (startAndPost 4 ++ untilDrain ++ [.drain, .drain, .drain, .drain])
    (fun s => s.bus.rest.accepted.any (lost s)) (by decide +kernel)
  obtain ⟨r, hr, htest⟩ := List.any_eq_true.mp htest
  have reach : Run.Reachable System.Start (LiveStep defaultConfig) s :=
    reachable_checkedRun (fun _ _ _ _ step check => liveStep_of_check step check) (.start start) run
  simp only [lost, Bool.and_eq_true, List.isEmpty_iff, List.all_eq_true, List.mem_range,
    decide_eq_true_eq] at htest
  obtain ⟨⟨⟨registered, hmsgq⟩, htags⟩, hcalls⟩ := htest
  rcases (always s reach r hr registered).1 with hmem | ⟨bs, q, p, n, ready, hzip, _⟩ | ⟨_, hd, _⟩
  · rw [hmsgq] at hmem
    cases hmem
  · by_cases hp : p < taskPriorityNumber
    · exact htags p hp (List.of_mem_zip hzip).2
    · have hempty : s.pc.behind p (q p) = [] := by
        rw [ready.queued.high p (Nat.le_of_not_lt hp)]
        cases s.pc with
        | handling call => exact ite_self _
        | _ => rfl
      rw [hempty] at hzip
      cases hzip
  · rw [hcalls] at hd
    cases hd

end Rtbus.Native
