import Rtbus.Native.Caller
import Rtbus.Native.Frames
import Rtbus.Native.Stop

/-!
# Requests and results

As long as every request with a result is issued by `rtbus_post_wait_result`, one request at most is
outstanding, and the semaphore is a token for its result: it is given after the result has been
written, and taken before the result is read. `Paired` says this for every point of a call.

That a request is completed once rests on the courier: a request is handed to its task once.
-/

namespace Rtbus.Native

open Rtbus.Emos Rtbus.Pool

variable {cfg : Config} {s s' : System}

/-! ## What steps of the system leave alone -/

/-- The accepted requests and the semaphore are the same, and so is RAM while there is a thread, and
the thread is still there. -/
structure Undisturbed (s s' : System) : Prop where
  accepted : s'.bus.rest.accepted = s.bus.rest.accepted
  sem : s'.bus.rest.resultSem = s.bus.rest.resultSem
  alive : s.bus.rest.threadId = true →
    s'.bus.rest.threadId = true ∧ s'.bus.rest.ram = s.bus.rest.ram

/-- A step that changes the messages only leaves the results alone. -/
theorem Undisturbed.of_msgq {msgq : List Request}
    (h : s'.bus.rest = { s.bus.rest with postMsgq := msgq }) : Undisturbed s s' := by
  refine ⟨?_, ?_, fun alive => ⟨?_, ?_⟩⟩
  all_goals rw [h]
  exact alive

/-- A handoff that ends no era stops nothing. -/
theorem handoff_era {turns : List (Nat × Bool)} {v : Service} {done : Service × Ret}
    (h : nativeServiceHandoffRamForPatch turns v = some done) (era : done.1.era = v.era) :
    done.1 = nativeServiceRequestStopForUpgrade v := by
  rcases handoff_cases h with ⟨_, rfl⟩ | ⟨_, rfl | rfl⟩
  · rfl
  · exact absurd era (Nat.succ_ne_self _)
  · rfl

/-- A start inside one era leaves a running thread and its results alone. -/
theorem start_undisturbed (loaded : Loaded) (v : Service)
    (era : (nativeServiceStart loaded v).1.era = v.era) :
    (nativeServiceStart loaded v).1.accepted = v.accepted ∧
      (nativeServiceStart loaded v).1.resultSem = v.resultSem ∧
      (v.threadId = true → (nativeServiceStart loaded v).1 = v) := by
  rcases start_cases loaded v with h | ⟨none_, _, ⟨e, h⟩ | h⟩ <;> rw [h] at era ⊢
  · exact ⟨rfl, rfl, fun _ => rfl⟩
  · exact absurd era (Nat.succ_ne_self _)
  · exact ⟨rfl, rfl, fun alive => absurd (none_.symm.trans alive) Bool.false_ne_true⟩

/-- Resuming behind an upgrade begins an era. -/
theorem resume_era (loaded : Loaded) (v : Service) :
    (nativeServiceResumeAfterUpgrade loaded v).era ≠ v.era := by
  have hera := (start_stops loaded (nativeServiceForceStopThread
    { v with patchHandoff := false, apiBusy := 0 })).2
  have hle : v.era + 1 ≤ (nativeServiceStart loaded (nativeServiceForceStopThread
      { v with patchHandoff := false, apiBusy := 0 })).1.era := by
    rcases hera with ⟨_, h, _⟩ | ⟨_, h⟩
    · exact Nat.le_of_eq h.symm
    · exact Nat.le_of_lt h
  exact Nat.ne_of_gt (Nat.lt_of_succ_le hle)

/-- A step of the runtime that completes nothing and ends no era. -/
theorem step_undisturbed {e : Event} (app : e.ofApp = false) (other : ∀ result, e ≠ .complete result)
    (era : s'.bus.rest.era = s.bus.rest.era) (h : System.step cfg e s = some s') :
    Undisturbed s s' := by
  cases e with
  | appPost args => cases app
  | complete result => exact absurd rfl (other result)
  | handoff turns =>
    have h : s.handoff turns = some s' := h
    unfold System.handoff at h
    split at h
    · split at h
      · obtain ⟨done, hdone, rfl⟩ := Option.map_eq_some_iff.mp h
        have hrest : (s.setService done.1).bus.rest =
            nativeServiceRequestStopForUpgrade s.bus.rest := handoff_era hdone era
        refine ⟨?_, ?_, fun alive => ⟨?_, ?_⟩⟩
        all_goals rw [hrest]
        · rfl
        · rfl
        · exact alive
        · rfl
      · cases h
    · cases h
  | resume loaded =>
    have h : s.resume loaded = some s' := h
    unfold System.resume at h
    split at h
    · split at h
      · cases h
        exact absurd era (resume_era loaded s.bus.rest)
      · cases h
    · cases h
  | start loaded =>
    have h : s.start loaded = some s' := h
    unfold System.start at h
    split at h
    · split at h
      · cases h
        obtain ⟨hacc, hsem, halive⟩ := start_undisturbed loaded s.bus.rest era
        refine ⟨hacc, hsem, fun alive => ⟨?_, ?_⟩⟩
        · show (nativeServiceStart loaded s.bus.rest).1.threadId = true
          rw [halive alive]
          exact alive
        · show (nativeServiceStart loaded s.bus.rest).1.ram = s.bus.rest.ram
          rw [halive alive]
      · cases h
    · cases h
  | _ =>
    obtain ⟨msgq, hrest⟩ := step_rest rfl h
    exact .of_msgq hrest

/-! ## Which call a handler is in -/

/-- A step calls no handler, and a call that may still complete was there before; or it calls one. -/
def Serves (s s' : System) : Prop :=
  (s'.calls = s.calls ∧ ∀ call, s'.pc = .handling call → call.completed = false →
    s.pc = .handling call) ∨
  ∃ call, s'.pc = .handling call ∧ s'.calls = s.calls ++ [⟨call.request, call.task, call.ctx⟩]

/-- A step that leaves the turn where it is calls no handler. -/
theorem Serves.of_pc (calls : s'.calls = s.calls) (pc : s'.pc = s.pc) : Serves s s' :=
  .inl ⟨calls, fun _ h _ => pc ▸ h⟩

/-- A step to where no handler is called. -/
theorem Serves.of_outside (calls : s'.calls = s.calls) (outside : s'.pc.serving = none) :
    Serves s s' := by
  refine .inl ⟨calls, fun call h _ => ?_⟩
  rw [h] at outside
  cases outside

/-- An event calls one handler, or leaves the one that a request is handled in. -/
theorem step_serves {e : Event} (h : System.step cfg e s = some s') : Serves s s' := by
  cases e with
  | appPost args =>
    have h : s.appPost args = some s' := h
    unfold System.appPost at h
    split at h <;> cases h
    exact .of_pc rfl rfl
  | post args =>
    have h : s.post args = some s' := h
    unfold System.post at h
    split at h <;> cases h
    all_goals exact .of_pc rfl rfl
  | postDelay args delayMs =>
    have h : s.postDelay cfg args delayMs = some s' := h
    unfold System.postDelay System.post at h
    split at h
    · split at h <;> cases h
      all_goals exact .of_pc rfl rfl
    · split at h <;> cases h
      exact .of_pc rfl rfl
  | advance ms =>
    cases h
    exact .of_pc rfl rfl
  | process =>
    have h : s.process = some s' := h
    unfold System.process at h
    split at h <;> cases h
    exact .of_outside rfl rfl
  | move =>
    have h : s.move = some s' := h
    unfold System.move at h
    split at h
    · split at h
      · cases h
        refine .of_outside rfl ?_
        dsimp only
        split <;> rfl
      · split at h
        · cases h
          exact .of_outside rfl rfl
        · split at h <;> cases h
          all_goals exact .of_outside rfl rfl
    · cases h
  | drain =>
    have h : s.drain = some s' := h
    unfold System.drain at h
    split at h
    · split at h
      · cases h
        exact .of_outside rfl rfl
      · split at h <;> cases h
        · exact .of_outside rfl rfl
        · exact .of_pc rfl rfl
    · cases h
  | dispatch =>
    have h : s.dispatch = some s' := h
    unfold System.dispatch at h
    split at h
    · split at h
      · split at h <;> cases h
        all_goals exact .of_outside rfl rfl
      · dsimp only at h
        split at h
        · obtain ⟨bus, _, rfl⟩ := Option.map_eq_some_iff.mp h
          exact .of_outside rfl rfl
        · split at h
          · obtain ⟨bus, _, rfl⟩ := Option.map_eq_some_iff.mp h
            exact .of_outside rfl rfl
          · cases h
            exact .inr ⟨_, rfl, rfl⟩
    · cases h
  | complete result =>
    have h : s.complete cfg result = some s' := h
    unfold System.complete at h
    split at h
    · split at h
      · cases h
        refine .inl ⟨rfl, fun call hpc hopen => ?_⟩
        cases hpc
        cases hopen
      · cases h
    · cases h
  | handoff turns =>
    have h : s.handoff turns = some s' := h
    unfold System.handoff at h
    split at h
    · split at h
      · obtain ⟨done, _, rfl⟩ := Option.map_eq_some_iff.mp h
        exact .of_pc rfl rfl
      · cases h
    · cases h
  | resume loaded =>
    have h : s.resume loaded = some s' := h
    unfold System.resume at h
    split at h
    · split at h <;> cases h
      exact .of_pc rfl rfl
    · cases h
  | start loaded =>
    have h : s.start loaded = some s' := h
    unfold System.start at h
    split at h
    · split at h <;> cases h
      exact .of_pc rfl rfl
    · cases h
  | finish =>
    have h : s.finish = some s' := h
    unfold System.finish at h
    split at h
    · obtain ⟨bus, _, rfl⟩ := Option.map_eq_some_iff.mp h
      exact .of_outside rfl rfl
    · cases h
      exact .of_outside rfl rfl
    · cases h

/-- A completion that writes a result: its call, the request, the address and what it does. -/
theorem complete_cases {result : UInt32} (h : s.complete cfg result = some s') :
    ∃ call addr, s.pc = .handling call ∧ call.completed = false ∧
      call.task.resultAddr cfg call.ctx = some addr ∧
      s'.bus.rest = (nativeServiceCompleteResult cfg addr result s.bus.rest).1 ∧
      s'.calls = s.calls ∧ s'.pc = .handling { call with completed := true } := by
  unfold System.complete at h
  split at h
  · rename_i call hpc
    split at h
    · rename_i addr hopen haddr
      cases h
      exact ⟨call, addr, hpc, hopen, haddr, rfl, rfl, rfl⟩
    · cases h
  · cases h

/-- Completing at an address: nothing happens, or the word is written and the semaphore given. -/
theorem completeResult_cases (cfg : Config) (addr result : UInt32) (v : Service) :
    (nativeServiceCompleteResult cfg addr result v).1 =
      if writesResult cfg addr then
        { v with
          ram := v.ram.store32 addr.toNat result.toNat
          resultSem := min (v.resultSem + 1) 1
          wakeProcess := true }
      else v := by
  unfold nativeServiceCompleteResult writesResult
  by_cases hzero : addr = 0
  · rw [if_pos hzero, if_neg]
    rw [hzero]
    exact Bool.false_ne_true
  · rw [if_neg hzero]
    cases hvalid : nativeResultAddrValid cfg addr with
    | false =>
      rw [if_pos rfl, if_neg]
      simp
    | true =>
      rw [if_neg nofun, if_pos]
      simp [hzero]

/-! ## The invariant -/

/-- Whether the task of a context completes it for the application. -/
def completesFor (cfg : Config) (b : Backend Task) (ctx : Ctx) : Bool :=
  match (b.find ctx.taskId).bind Entry.taskEntry with
  | none => false
  | some task => (task.resultAddr cfg ctx).any (writesResult cfg)

/-- A result is written exactly to an address that is given and valid. -/
theorem writesResult_iff {addr : UInt32} :
    writesResult cfg addr = true ↔ addr ≠ 0 ∧ nativeResultAddrValid cfg addr = true := by
  unfold writesResult
  rw [Bool.and_eq_true, decide_eq_true_iff]

/-- The test for an event whose request expects a result is that property. -/
theorem completesFor_iff {b : Backend Task} {ctx : Ctx} :
    completesFor cfg b ctx = true ↔ CtxCompletes cfg b ctx := by
  unfold completesFor
  constructor
  · intro h
    split at h
    · cases h
    · rename_i task htask
      obtain ⟨entry, hfind, hentry⟩ := Option.bind_eq_some_iff.mp htask
      obtain ⟨addr, haddr, hwrites⟩ := (Option.any_eq_true _ _).mp h
      obtain ⟨hne, hvalid⟩ := writesResult_iff.mp hwrites
      exact ⟨task, ⟨entry, hfind, hentry⟩, addr, haddr, hne, hvalid⟩
  · rintro ⟨task, ⟨entry, hfind, hentry⟩, addr, haddr, hne, hvalid⟩
    rw [hfind, Option.bind_some, hentry]
    dsimp only
    rw [haddr]
    exact writesResult_iff.mpr ⟨hne, hvalid⟩

/-- An address at which a task completes a context is the first word of its payload. -/
theorem resultAddr_eq {task : Task} {ctx : Ctx} {addr : UInt32}
    (h : task.resultAddr cfg ctx = some addr) : firstWord ctx.payload = addr := by
  unfold Task.resultAddr at h
  split at h
  · exact Option.some.inj h
  · cases h

namespace Caller

variable {c c' : Caller}

/-- The requests whose result a handler has passed. -/
def done (c : Caller) : List Request := c.results.map Prod.fst

/-- Whether a request has been accepted for a result that no handler has passed yet. -/
def isOutstanding (cfg : Config) (c : Caller) (r : Request) : Bool :=
  completesFor cfg c.system.bus.backend r.msg.ctx && !c.done.contains r

/-- The outstanding requests. -/
def outstanding (cfg : Config) (c : Caller) : List Request :=
  c.system.bus.rest.accepted.filter (c.isOutstanding cfg)

/-- A post is a request with its result at an address: its task serves it at this payload size, and
the address, the first word of the payload, is valid. -/
def RequestFor (cfg : Config) (b : Backend Task) (ctx : Ctx) (addr : UInt32) : Prop :=
  ∃ task, ServedBy b ctx task ∧ task.resultAddr cfg ctx = some addr ∧ writesResult cfg addr = true

/-- A step of one incarnation of the application in which every request with a result is issued by
`rtbus_post_wait_result`. -/
def PairedStep (cfg : Config) (c : Caller) (e : CallerEvent) (c' : Caller) : Prop :=
  c.step cfg e = some c' ∧
    match e with
    | .act e => c'.system.bus.rest.era = c.system.bus.rest.era ∧
      match e with
      | .appPost args => completesFor cfg c.system.bus.backend args.ctx = false
      | .post args | .postDelay args _ =>
        args.Fits ∧ completesFor cfg c.system.bus.backend args.ctx = false
      | _ => True
    | .call args addr => RequestFor cfg c.system.bus.backend args.ctx addr
    | _ => True

/-- The result of a request is in its place: a handler has passed it, and the word holds it. -/
def HasResult (c : Caller) (r : Request) (addr : UInt32) : Prop :=
  ∃ v, (r, v) ∈ c.results ∧ c.system.bus.rest.ram.load32 addr.toNat = v.toNat

/-- What the semaphore says at each point of a call. -/
def Token (cfg : Config) (c : Caller) : Prop :=
  let sem := c.system.bus.rest.resultSem
  match c.pc with
  | .running => sem = 0 ∧ c.outstanding cfg = []
  | .posting args addr => sem = 0 ∧ c.outstanding cfg = [] ∧
      RequestFor cfg c.system.bus.backend args.ctx addr
  | .waiting r addr => firstWord r.msg.payload = addr ∧
      ((sem = 0 ∧ c.outstanding cfg = [r]) ∨
        (sem = 1 ∧ c.outstanding cfg = [] ∧ c.HasResult r addr))
  | .reading r addr => sem = 0 ∧ c.outstanding cfg = [] ∧ c.HasResult r addr

/-- The invariant. -/
structure Paired (cfg : Config) (c : Caller) : Prop where
  tracked : ∃ bs q, Tracked (fun ctx => ¬ CtxCompletes cfg c.system.bus.backend ctx) c.system bs q
  conserved : c.system.view.Conserved taskPriorityNumber
  served : ∀ r ∈ c.done, some r ∈ c.system.calls.map Dispatch.request
  current : ∀ call, c.system.pc = .handling call → call.completed = false →
    call.request ∈ c.system.calls.map Dispatch.request ∧ ∀ r ∈ c.done, call.request ≠ some r
  once : c.done.Nodup
  alive : c.pc.isRunning = false → c.system.bus.rest.threadId = true
  token : c.Token cfg
  returned : ∀ x ∈ c.returned, x ∈ c.results

/-- What the outstanding requests depend on. -/
theorem outstanding_congr (accepted : c'.system.bus.rest.accepted = c.system.bus.rest.accepted)
    (backend : c'.system.bus.backend = c.system.bus.backend) (results : c'.results = c.results) :
    c'.outstanding cfg = c.outstanding cfg := by
  unfold outstanding isOutstanding done
  rw [accepted, backend, results]

/-- What the token depends on, at the same point of a call. -/
theorem Token.congr (h : c.Token cfg) (pc : c'.pc = c.pc)
    (accepted : c'.system.bus.rest.accepted = c.system.bus.rest.accepted)
    (backend : c'.system.bus.backend = c.system.bus.backend) (results : c'.results = c.results)
    (sem : c'.system.bus.rest.resultSem = c.system.bus.rest.resultSem)
    (ram : c.pc.isRunning = false → c'.system.bus.rest.ram = c.system.bus.rest.ram) :
    c'.Token cfg := by
  have hout : c'.outstanding cfg = c.outstanding cfg :=
    outstanding_congr accepted backend results
  unfold Token at h ⊢
  dsimp only at h ⊢
  rw [pc, hout, sem]
  cases hpc : c.pc with
  | running =>
    rw [hpc] at h
    exact h
  | posting args addr =>
    rw [hpc] at h
    dsimp only at h ⊢
    rw [backend]
    exact h
  | waiting r addr =>
    rw [hpc] at h ram
    unfold HasResult at h ⊢
    rw [results, ram rfl]
    exact h
  | reading r addr =>
    rw [hpc] at h ram
    unfold HasResult at h ⊢
    rw [results, ram rfl]
    exact h

/-- A step of the system keeps the invariants of the queues. -/
theorem Paired.advance (h : c.Paired cfg) {e : Event} {s' : System}
    (allowed : e.Allowed fun ctx => ¬ CtxCompletes cfg c.system.bus.backend ctx)
    (era : s'.bus.rest.era = c.system.bus.rest.era) (step : System.step cfg e c.system = some s') :
    (∃ bs q, Tracked (fun ctx => ¬ CtxCompletes cfg s'.bus.backend ctx) s' bs q) ∧
      s'.view.Conserved taskPriorityNumber ∧ s'.bus.backend = c.system.bus.backend := by
  obtain ⟨bs, q, t⟩ := h.tracked
  obtain ⟨tracked, backend, hview⟩ := step_refines (fun _ => True) (fun _ => False) t allowed
    (fun _ _ _ _ _ => trivial) (fun _ _ _ hne => hne era) step
  refine ⟨by rw [backend]; exact tracked, ?_, backend⟩
  rcases hview with hview | hview
  · rw [hview]
    exact h.conserved
  · exact h.conserved.step (fun _ hstop => hstop) hview

/-- The history of calls and results after a step that passes no result. -/
theorem Paired.calls (h : c.Paired cfg) {s' : System} (serves : Serves c.system s')
    (conserved : s'.view.Conserved taskPriorityNumber) :
    (∀ r ∈ c.done, some r ∈ s'.calls.map Dispatch.request) ∧
      ∀ call, s'.pc = .handling call → call.completed = false →
        call.request ∈ s'.calls.map Dispatch.request ∧ ∀ r ∈ c.done, call.request ≠ some r := by
  rcases serves with ⟨hcalls, hpc⟩ | ⟨call, hpc, hcalls⟩
  · rw [hcalls]
    exact ⟨h.served, fun call hcall hopen => h.current call (hpc call hcall hopen) hopen⟩
  · have hmap : s'.calls.map Dispatch.request =
        c.system.calls.map Dispatch.request ++ [call.request] := by
      rw [hcalls, List.map_append]
      rfl
    rw [hmap]
    refine ⟨fun r hr => List.mem_append_left _ (h.served r hr), fun call' hcall' _ => ?_⟩
    rw [hpc] at hcall'
    cases hcall'
    refine ⟨List.mem_append_right _ (List.mem_singleton.mpr rfl), fun r hr heq => ?_⟩
    -- a request that has its result was handed over before, and so would be handed over twice
    have hbalance := conserved.balance r
    have hacc : s'.view.accepted.count r ≤ 1 := List.nodup_iff_count_le_one.mp conserved.nodup r
    have hserved : s'.view.served.count (some r) =
        (c.system.calls.map Dispatch.request).count (some r) + 1 := by
      show (s'.calls.map Dispatch.request).count (some r) = _
      rw [hmap, List.count_append, heq, List.count_singleton_self]
    have hbefore : 0 < (c.system.calls.map Dispatch.request).count (some r) :=
      List.count_pos_iff.mpr (h.served r hr)
    omega

/-- A step of the runtime that completes nothing. -/
theorem Paired.undisturbed (h : c.Paired cfg) {e : Event} {s' : System}
    (allowed : e.Allowed fun ctx => ¬ CtxCompletes cfg c.system.bus.backend ctx)
    (era : s'.bus.rest.era = c.system.bus.rest.era) (app : e.ofApp = false)
    (other : ∀ result, e ≠ .complete result) (step : System.step cfg e c.system = some s') :
    Paired cfg { c with system := s' } := by
  obtain ⟨tracked, conserved, backend⟩ := h.advance allowed era step
  obtain ⟨served, current⟩ := h.calls (step_serves step) conserved
  have same := step_undisturbed app other era step
  exact ⟨tracked, conserved, served, current, h.once, fun hpc => (same.alive (h.alive hpc)).1,
    h.token.congr rfl same.accepted backend rfl same.sem fun hpc => (same.alive (h.alive hpc)).2,
    h.returned⟩

/-- What a post of the application does to the service: one request is accepted, or none. -/
structure AppPosted (args : PostArgs) (b b' : Bus Task Service) (ret : Ret) : Prop where
  backend : b'.backend = b.backend
  sem : b'.rest.resultSem = b.rest.resultSem
  ram : b'.rest.ram = b.rest.ram
  thread : b'.rest.threadId = b.rest.threadId
  era : b'.rest.era = b.rest.era
  accepted : (ret ≠ .ok ∧ b'.rest.accepted = b.rest.accepted) ∨
    (ret = .ok ∧ ∃ r : Request, r.msg.ctx = args.ctx ∧ r.number = b.rest.accepted.length ∧
      b'.rest.accepted = b.rest.accepted ++ [r])

/-- A post of the application puts its message, or is refused and changes nothing. -/
theorem nativeApiRtbusPost_spec {args : PostArgs} {b b' : Bus Task Service} {ret : Ret}
    (h : nativeApiRtbusPost args b = (b', ret)) : AppPosted args b b' ret := by
  have refused : ∀ e, AppPosted args b b (.err e) :=
    fun e => ⟨rfl, rfl, rfl, rfl, rfl, .inl ⟨nofun, rfl⟩⟩
  unfold nativeApiRtbusPost at h
  split at h
  · rename_i small
    split at h
    · cases h
      exact refused _
    · split at h <;> cases h
      · exact refused _
      · exact ⟨rfl, rfl, rfl, rfl, rfl, .inr ⟨rfl,
          ⟨postMsg args small, b.rest.accepted.length, b.rest.era⟩, rfl, rfl, rfl⟩⟩
  · cases h
    exact refused _

/-- The outstanding requests after one more is accepted. -/
theorem outstanding_append {r : Request}
    (accepted : c'.system.bus.rest.accepted = c.system.bus.rest.accepted ++ [r])
    (backend : c'.system.bus.backend = c.system.bus.backend) (results : c'.results = c.results) :
    c'.outstanding cfg = c.outstanding cfg ++ if c.isOutstanding cfg r then [r] else [] := by
  unfold outstanding
  have hpred : c'.isOutstanding cfg = c.isOutstanding cfg := by
    funext x
    unfold isOutstanding done
    rw [backend, results]
  rw [accepted, hpred, List.filter_append, List.filter_singleton, Bool.cond_eq_ite]

/-- A request with a result has been accepted. -/
theorem Paired.accepted_of_done (h : c.Paired cfg) {r : Request} (hr : r ∈ c.done) :
    r ∈ c.system.bus.rest.accepted := by
  have hserved : 0 < c.system.view.served.count (some r) := List.count_pos_iff.mpr (h.served r hr)
  have hbalance := h.conserved.balance r
  exact List.count_pos_iff.mp (show 0 < c.system.view.accepted.count r by omega)

/-- A request that has just been accepted has no result. -/
theorem Paired.fresh (h : c.Paired cfg) {r : Request}
    (number : r.number = c.system.bus.rest.accepted.length) : r ∉ c.done := by
  obtain ⟨bs, q, t⟩ := h.tracked
  intro hr
  have hlt := (t.history r (h.accepted_of_done hr)).1
  rw [number] at hlt
  exact absurd hlt (Nat.lt_irrefl _)

/-- The application posts something without a result. -/
theorem Paired.appPost (h : c.Paired cfg) {args : PostArgs} {s' : System}
    (plain : completesFor cfg c.system.bus.backend args.ctx = false)
    (running : c.pc = .running) (era : s'.bus.rest.era = c.system.bus.rest.era)
    (step : c.system.appPost args = some s') : Paired cfg { c with system := s' } := by
  obtain ⟨tracked, conserved, backend⟩ := h.advance (e := .appPost args) trivial era step
  have step' : System.step cfg (.appPost args) c.system = some s' := step
  obtain ⟨served, current⟩ := h.calls (step_serves step') conserved
  refine ⟨tracked, conserved, served, current, h.once, fun hpc => ?_, ?_, h.returned⟩
  · change c.pc.isRunning = false at hpc
    rw [running] at hpc
    cases hpc
  · have token := h.token
    unfold Token at token ⊢
    dsimp only at token ⊢
    rw [running] at token ⊢
    obtain ⟨hsem, hout⟩ := token
    obtain ⟨ret, posted⟩ : ∃ ret, AppPosted args c.system.bus s'.bus ret := by
      unfold System.appPost at step
      split at step <;> cases step
      exact ⟨_, nativeApiRtbusPost_spec rfl⟩
    refine ⟨posted.sem.trans hsem, ?_⟩
    rcases posted.accepted with ⟨_, hacc⟩ | ⟨_, r, hctx, _, hacc⟩
    · exact Eq.trans (outstanding_congr (c := c) hacc posted.backend rfl) hout
    · refine Eq.trans (outstanding_append (c := c) hacc posted.backend rfl) ?_
      rw [hout, isOutstanding, hctx, plain]
      rfl

/-- `rtbus_post_wait_result` posts its request. -/
theorem Paired.post (h : c.Paired cfg) (step : c.post = some c') : c'.Paired cfg := by
  unfold Caller.post at step
  split at step
  · rename_i args addr hpc
    have token := h.token
    unfold Token at token
    rw [hpc] at token
    obtain ⟨hsem, hout, task, served, haddr, hwrites⟩ := token
    have alive := h.alive (by rw [hpc]; rfl)
    cases hpost : nativeApiRtbusPost args c.system.bus with
    | mk bus ret =>
      have posted := nativeApiRtbusPost_spec hpost
      have happ : System.step cfg (.appPost args) c.system =
          some { c.system with bus := bus } := by
        show System.appPost c.system args = _
        unfold System.appPost
        rw [if_pos alive, hpost]
      obtain ⟨tracked, conserved, _⟩ := h.advance (e := .appPost args) trivial posted.era happ
      obtain ⟨hserved, hcurrent⟩ := h.calls (step_serves happ) conserved
      rw [hpost] at step
      dsimp only at step
      rcases posted.accepted with ⟨hret, hacc⟩ | ⟨rfl, r, hctx, hnumber, hacc⟩
      · split at step
        · exact absurd rfl hret
        · cases step
          refine ⟨tracked, conserved, hserved, hcurrent, h.once, nofun,
            ⟨posted.sem.trans hsem, ?_⟩, h.returned⟩
          exact Eq.trans (outstanding_congr (c := c) hacc posted.backend rfl) hout
      · rw [hacc, List.getLast?_concat] at step
        cases step
        refine ⟨tracked, conserved, hserved, hcurrent, h.once,
          fun _ => posted.thread.trans alive, ⟨?_, .inl ⟨posted.sem.trans hsem, ?_⟩⟩, h.returned⟩
        · have hword := resultAddr_eq haddr
          rw [← hctx] at hword
          exact hword
        · have hcompletes : completesFor cfg c.system.bus.backend r.msg.ctx = true := by
            obtain ⟨hne, hvalid⟩ := writesResult_iff.mp hwrites
            rw [hctx]
            exact completesFor_iff.mpr ⟨task, served, addr, haddr, hne, hvalid⟩
          have hfresh : c.done.contains r = false := by
            rw [List.contains_eq_mem]
            exact decide_eq_false (h.fresh hnumber)
          refine Eq.trans (outstanding_append (c := c) hacc posted.backend rfl) ?_
          rw [hout, isOutstanding, hcompletes, hfresh]
          rfl
  · cases step

/-- What a completion passes, and to which request: nothing, or the value to the one outstanding
request, for which the application waits. -/
theorem Paired.passed (h : c.Paired cfg) (result : UInt32) {addr : UInt32} {call : Call}
    (hpc : c.system.pc = .handling call) (hopen : call.completed = false)
    (haddr : call.task.resultAddr cfg call.ctx = some addr) :
    (writesResult cfg addr = false ∧ c.system.passed cfg (.complete result) = []) ∨
      ∃ r, writesResult cfg addr = true ∧ c.system.passed cfg (.complete result) = [(r, result)] ∧
        call.request = some r ∧ r ∈ c.system.bus.rest.accepted ∧ c.isOutstanding cfg r = true ∧
        firstWord r.msg.payload = addr := by
  obtain ⟨bs, q, t⟩ := h.tracked
  obtain ⟨_, carries, served⟩ := t.handling call hpc
  obtain ⟨hcalls, hdone⟩ := h.current call hpc hopen
  cases hwrites : writesResult cfg addr with
  | false =>
    refine .inl ⟨rfl, ?_⟩
    unfold System.passed
    dsimp only
    rw [hpc]
    dsimp only
    rw [hopen, haddr]
    cases call.request with
    | none => rfl
    | some r =>
      dsimp only
      rw [hwrites]
      rfl
  | true =>
    obtain ⟨hne, hvalid⟩ := writesResult_iff.mp hwrites
    have hcompletes : CtxCompletes cfg c.system.bus.backend call.ctx :=
      ⟨call.task, served, addr, haddr, hne, hvalid⟩
    cases hreq : call.request with
    | none =>
      rw [hreq] at carries
      exact absurd hcompletes carries
    | some r =>
      rw [hreq] at carries hcalls
      have hctx : call.ctx = r.msg.ctx := carries
      have hacc : r ∈ c.system.bus.rest.accepted := by
        have hpos : 0 < c.system.view.served.count (some r) := List.count_pos_iff.mpr hcalls
        have hbalance := h.conserved.balance r
        exact List.count_pos_iff.mp (show 0 < c.system.view.accepted.count r by omega)
      refine .inr ⟨r, rfl, ?_, rfl, hacc, ?_, ?_⟩
      · unfold System.passed
        dsimp only
        rw [hpc]
        dsimp only
        rw [hopen, haddr, hreq]
        dsimp only
        rw [hwrites, if_pos rfl]
      · unfold isOutstanding
        rw [← hctx, completesFor_iff.mpr hcompletes, List.contains_eq_mem,
          decide_eq_false fun hr => hdone r hr hreq]
        rfl
      · have hword := resultAddr_eq haddr
        rw [hctx] at hword
        exact hword

/-- A completion that writes no result. -/
theorem Paired.complete_plain (h : c.Paired cfg) {result : UInt32} {s' : System}
    (tracked : ∃ bs q, Tracked (fun ctx => ¬ CtxCompletes cfg s'.bus.backend ctx) s' bs q)
    (conserved : s'.view.Conserved taskPriorityNumber)
    (backend : s'.bus.backend = c.system.bus.backend) (serves : Serves c.system s')
    (same : s'.bus.rest = c.system.bus.rest)
    (none : c.system.passed cfg (.complete result) = []) :
    Paired cfg { c with
      system := s', results := c.results ++ c.system.passed cfg (.complete result) } := by
  rw [none, List.append_nil]
  obtain ⟨served, current⟩ := h.calls serves conserved
  refine ⟨tracked, conserved, served, current, h.once, fun hpc => ?_,
    h.token.congr rfl ?_ backend rfl ?_ fun _ => ?_, h.returned⟩
  all_goals
    dsimp only
    rw [same]
  exact h.alive hpc

/-- A completion that writes the result of the outstanding request. -/
theorem Paired.complete_outstanding (h : c.Paired cfg) {result addr : UInt32} {r : Request}
    {call : Call} {s' : System}
    (tracked : ∃ bs q, Tracked (fun ctx => ¬ CtxCompletes cfg s'.bus.backend ctx) s' bs q)
    (conserved : s'.view.Conserved taskPriorityNumber)
    (backend : s'.bus.backend = c.system.bus.backend) (serves : Serves c.system s')
    (pc : s'.pc = .handling { call with completed := true })
    (service : s'.bus.rest = { c.system.bus.rest with
      ram := c.system.bus.rest.ram.store32 addr.toNat result.toNat
      resultSem := min (c.system.bus.rest.resultSem + 1) 1
      wakeProcess := true })
    (passed : c.system.passed cfg (.complete result) = [(r, result)])
    (accepted : r ∈ c.system.bus.rest.accepted) (outstanding : c.isOutstanding cfg r = true)
    (word : firstWord r.msg.payload = addr)
    (called : some r ∈ c.system.calls.map Dispatch.request) :
    Paired cfg { c with
      system := s', results := c.results ++ c.system.passed cfg (.complete result) } := by
  have hmem : r ∈ c.outstanding cfg := List.mem_filter.mpr ⟨accepted, outstanding⟩
  have hnew : r ∉ c.done := by
    unfold isOutstanding at outstanding
    have := (Bool.and_eq_true_iff.mp outstanding).2
    rw [List.contains_eq_mem, Bool.not_eq_true'] at this
    exact of_decide_eq_false this
  obtain ⟨served, _⟩ := h.calls serves conserved
  rw [passed]
  -- the only point of a call at which a request is outstanding is the wait for its result
  have token := h.token
  unfold Token at token
  dsimp only at token
  cases hpc : c.pc with
  | running =>
    rw [hpc] at token
    rw [token.2] at hmem
    cases hmem
  | posting args addr' =>
    rw [hpc] at token
    rw [token.2.1] at hmem
    cases hmem
  | reading r' addr' =>
    rw [hpc] at token
    rw [token.2.1] at hmem
    cases hmem
  | waiting r' addr' =>
    rw [hpc] at token
    obtain ⟨hword, ⟨hsem, hout⟩ | ⟨_, hout, _⟩⟩ := token
    · rw [hout] at hmem
      obtain rfl := List.mem_singleton.mp hmem
      obtain rfl := hword.symm.trans word
      have hdone : (c.results ++ [(r, result)]).map Prod.fst = c.done ++ [r] := List.map_append
      have halive := h.alive (by rw [hpc]; rfl)
      refine ⟨tracked, conserved, fun x hx => ?_, fun call' hcall' hopen => ?_, ?_, fun _ => ?_,
        ⟨hword, .inr ⟨?_, ?_, result, ?_, ?_⟩⟩, fun x hx => ?_⟩
      · change x ∈ (c.results ++ [(r, result)]).map Prod.fst at hx
        rw [hdone] at hx
        rcases List.mem_append.mp hx with hx | hx
        · exact served x hx
        · rw [List.mem_singleton.mp hx]
          rcases serves with ⟨hcalls, _⟩ | ⟨_, _, hcalls⟩
          · dsimp only
            rw [hcalls]
            exact called
          · dsimp only
            rw [hcalls, List.map_append]
            exact List.mem_append_left _ called
      · change s'.pc = _ at hcall'
        rw [pc] at hcall'
        cases hcall'
        cases hopen
      · show ((c.results ++ [(r, result)]).map Prod.fst).Nodup
        rw [hdone]
        refine List.nodup_append.mpr ⟨h.once, List.nodup_singleton r, fun x hx y hy => ?_⟩
        rw [List.mem_singleton.mp hy]
        rintro rfl
        exact hnew hx
      · show s'.bus.rest.threadId = true
        rw [service]
        exact halive
      · show s'.bus.rest.resultSem = 1
        rw [service]
        show min (c.system.bus.rest.resultSem + 1) 1 = 1
        rw [hsem]
        rfl
      · unfold Caller.outstanding isOutstanding Caller.done at hout ⊢
        dsimp only
        rw [service, backend, hdone]
        refine List.filter_eq_nil_iff.mpr fun x hx hkeep => ?_
        obtain ⟨hcompletes, hopen⟩ := Bool.and_eq_true_iff.mp hkeep
        rw [List.contains_eq_mem, Bool.not_eq_true'] at hopen
        have hopen := of_decide_eq_false hopen
        have hx' : x ∈ [r] := by
          rw [← hout]
          refine List.mem_filter.mpr ⟨hx, Bool.and_eq_true_iff.mpr ⟨hcompletes, ?_⟩⟩
          rw [List.contains_eq_mem, Bool.not_eq_true']
          exact decide_eq_false fun hmem => hopen (List.mem_append_left _ hmem)
        rw [List.mem_singleton.mp hx'] at hopen
        exact hopen (List.mem_append_right _ (List.mem_singleton.mpr rfl))
      · exact List.mem_append_right _ (List.mem_singleton.mpr rfl)
      · show s'.bus.rest.ram.load32 _ = _
        rw [service]
        exact Memory.load32_store32 _ _ result.toNat_lt
      · exact List.mem_append_left _ (h.returned x hx)
    · rw [hout] at hmem
      cases hmem

/-- A completion inside the era keeps requests and results paired. -/
theorem Paired.complete (h : c.Paired cfg) {result : UInt32} {s' : System}
    (era : s'.bus.rest.era = c.system.bus.rest.era)
    (step : c.system.complete cfg result = some s') :
    Paired cfg { c with
      system := s', results := c.results ++ c.system.passed cfg (.complete result) } := by
  have step' : System.step cfg (.complete result) c.system = some s' := step
  obtain ⟨tracked, conserved, backend⟩ := h.advance (e := .complete result) trivial era step'
  obtain ⟨call, addr, hpc, hopen, haddr, hrest, _, hpc'⟩ := complete_cases step
  rw [completeResult_cases] at hrest
  rcases h.passed result hpc hopen haddr with
    ⟨hwrites, hnone⟩ | ⟨r, hwrites, hpassed, hreq, hacc, hout, hword⟩
  · rw [hwrites, if_neg Bool.false_ne_true] at hrest
    exact h.complete_plain tracked conserved backend (step_serves step') hrest hnone
  · rw [hwrites, if_pos rfl] at hrest
    have called := (h.current call hpc hopen).1
    rw [hreq] at called
    exact h.complete_outstanding tracked conserved backend (step_serves step') hpc' hrest hpassed
      hacc hout hword called

/-- Only a completion passes a result. -/
theorem passed_of_other {e : Event} (other : ∀ result, e ≠ .complete result) (s : System) :
    s.passed cfg e = [] := by
  cases e with
  | complete result => exact absurd rfl (other result)
  | _ => rfl

/-- A step of the system. -/
theorem Paired.act (h : c.Paired cfg) {e : Event} (step : PairedStep cfg c (.act e) c') :
    c'.Paired cfg := by
  obtain ⟨step, era, may⟩ := step
  have step : c.act cfg e = some c' := step
  unfold Caller.act at step
  split at step
  · cases step
  · rename_i hguard
    obtain ⟨s', hstep, rfl⟩ := Option.map_eq_some_iff.mp step
    change s'.bus.rest.era = _ at era
    have plain : ∀ ctx, completesFor cfg c.system.bus.backend ctx = false →
        ¬ CtxCompletes cfg c.system.bus.backend ctx := by
      intro ctx hplain hcompletes
      rw [completesFor_iff.mpr hcompletes] at hplain
      cases hplain
    by_cases hcomplete : ∃ result, e = .complete result
    · obtain ⟨result, rfl⟩ := hcomplete
      exact h.complete era hstep
    · have other : ∀ result, e ≠ .complete result := fun result he => hcomplete ⟨result, he⟩
      rw [passed_of_other other, List.append_nil]
      cases happ : e.ofApp with
      | true =>
        cases e with
        | appPost args =>
          refine h.appPost may ?_ era hstep
          cases hpc : c.pc with
          | running => rfl
          | _ =>
            rw [hpc] at hguard
            exact absurd rfl hguard
        | _ => cases happ
      | false =>
        refine h.undisturbed ?_ era happ other hstep
        cases e with
        | post args => exact ⟨may.1, plain _ may.2⟩
        | postDelay args delayMs => exact ⟨may.1, plain _ may.2⟩
        | _ => trivial

/-- A change of the service that is not part of the history keeps what is known of the queues. -/
theorem Paired.withService (h : c.Paired cfg) {v : Service}
    (accepted : v.accepted = c.system.bus.rest.accepted)
    (msgq : v.postMsgq = c.system.bus.rest.postMsgq) (era : v.era = c.system.bus.rest.era)
    (thread : v.threadId = c.system.bus.rest.threadId) :
    (∃ bs q, Tracked (fun ctx => ¬ CtxCompletes cfg (c.system.setService v).bus.backend ctx)
        (c.system.setService v) bs q) ∧
      (c.system.setService v).view.Conserved taskPriorityNumber := by
  obtain ⟨bs, q, t⟩ := h.tracked
  refine ⟨⟨bs, q, t.of_service fun r hr => ?_⟩, ?_⟩
  · rw [accepted] at hr ⊢
    rw [era, thread]
    exact t.history r hr
  · have hview : (c.system.setService v).view = c.system.view := by
      unfold System.view System.setService
      dsimp only
      rw [accepted, msgq, era]
    rw [hview]
    exact h.conserved

/-- Every step keeps the invariant. -/
theorem Paired.step (h : c.Paired cfg) {e : CallerEvent} (step : PairedStep cfg c e c') :
    c'.Paired cfg := by
  cases e with
  | act e => exact h.act step
  | post => exact h.post step.1
  | write ram =>
    have step : c.write ram = some c' := step.1
    unfold Caller.write at step
    split at step
    · rename_i hrunning
      cases step
      obtain ⟨tracked, conserved⟩ := h.withService
        (v := { c.system.bus.rest with ram := ram }) rfl rfl rfl rfl
      refine ⟨tracked, conserved, h.served, h.current, h.once, h.alive, ?_, h.returned⟩
      refine h.token.congr rfl rfl rfl rfl rfl fun hpc => ?_
      rw [hpc] at hrunning
      cases hrunning
    · cases step
  | call args addr =>
    obtain ⟨step, request⟩ := step
    have step : c.call args addr = some c' := step
    unfold Caller.call at step
    split at step
    · rename_i hrunning
      obtain ⟨hpc, halive⟩ := Bool.and_eq_true_iff.mp hrunning
      cases step
      obtain ⟨tracked, conserved⟩ := h.withService (v := { c.system.bus.rest with
        ram := c.system.bus.rest.ram.store32 addr.toNat inProgress.toNat }) rfl rfl rfl rfl
      refine ⟨tracked, conserved, h.served, h.current, h.once, fun _ => halive, ?_, h.returned⟩
      have token := h.token
      unfold Token at token
      dsimp only at token
      cases hpc' : c.pc with
      | running =>
        rw [hpc'] at token
        exact ⟨token.1, token.2, request⟩
      | _ =>
        rw [hpc'] at hpc
        cases hpc
    · cases step
  | take =>
    have step : c.take = some c' := step.1
    unfold Caller.take at step
    split at step
    · rename_i r addr hpc
      split at step
      · cases step
      · rename_i hsem
        cases step
        have token := h.token
        unfold Token at token
        rw [hpc] at token
        obtain ⟨_, ⟨hzero, _⟩ | ⟨hone, hout, hresult⟩⟩ := token
        · exact absurd hzero hsem
        · obtain ⟨tracked, conserved⟩ := h.withService (v := { c.system.bus.rest with
            resultSem := c.system.bus.rest.resultSem - 1 }) rfl rfl rfl rfl
          refine ⟨tracked, conserved, h.served, h.current, h.once,
            fun _ => h.alive (by rw [hpc]; rfl), ⟨?_, hout, hresult⟩, h.returned⟩
          show c.system.bus.rest.resultSem - 1 = 0
          rw [hone]
    · cases step
  | read =>
    have step : c.read = some c' := step.1
    unfold Caller.read at step
    split at step
    · rename_i r addr hpc
      cases step
      have token := h.token
      unfold Token at token
      rw [hpc] at token
      obtain ⟨hsem, hout, v, hv, hload⟩ := token
      refine ⟨h.tracked, h.conserved, h.served, h.current, h.once, nofun, ⟨hsem, hout⟩,
        fun x hx => ?_⟩
      rcases List.mem_append.mp hx with hx | hx
      · exact h.returned x hx
      · rw [List.mem_singleton.mp hx, hload, UInt32.ofNat_toNat]
        exact hv
    · cases step

/-- At the start there is nothing to pair. -/
theorem Start.paired (start : c.Start) : c.Paired cfg := by
  obtain ⟨start, hpc, hresults, hreturned⟩ := start
  obtain ⟨hacc, hwait, hqueued, hserved, _, hrefused, _⟩ := start.view
  have hdone : c.done = [] := by
    unfold done
    rw [hresults]
    rfl
  obtain ⟨b, _, _, _, range, hboot, hinit, hs⟩ := id start
  have hidle : c.system.pc = .idle := by rw [hs]
  refine ⟨start.tracked fun entry => Bare.not_completes rfl, ⟨?_, fun r => ?_⟩, fun r hr => ?_,
    fun call hcall => ?_, ?_, fun hne => ?_, ?_, fun x hx => ?_⟩
  · rw [hacc]
    exact .nil
  · have hcount : Courier.queuedCount taskPriorityNumber c.system.view.queued r = 0 :=
      Finset.sum_eq_zero fun p _ => List.count_eq_zero.mpr fun hmem => by cases hqueued p _ hmem
    rw [hacc, hwait, hserved, hrefused, hcount]
    rfl
  · rw [hdone] at hr
    cases hr
  · rw [hidle] at hcall
    cases hcall
  · rw [hdone]
    exact .nil
  · rw [hpc] at hne
    cases hne
  · obtain ⟨_, _, hrest⟩ := rtbusInit_tracks range hinit
    unfold Token
    dsimp only
    rw [hpc]
    refine ⟨?_, ?_⟩
    · rw [hrest, hboot]
      rfl
    · unfold outstanding
      rw [show c.system.bus.rest.accepted = [] from hacc]
      rfl
  · rw [hreturned] at hx
    cases hx

/-- In every run of one incarnation in which every request with a result is issued by
`rtbus_post_wait_result`: what the call returns for a request is the one value that the handler of
that request passed, and the semaphore and the outstanding requests together are at most one. -/
theorem returned_is_passed (h : Run.Reachable Start (PairedStep cfg) c) :
    (∀ r v, (r, v) ∈ c.returned → (r, v) ∈ c.results ∧ ∀ v', (r, v') ∈ c.results → v' = v) ∧
      c.system.bus.rest.resultSem + (c.outstanding cfg).length ≤ 1 := by
  have paired : c.Paired cfg :=
    Run.Reachable.invariant (I := Paired cfg) (fun _ => Start.paired) (fun _ _ _ h => h.step) h
  refine ⟨fun r v hr => ?_, ?_⟩
  · have hv := paired.returned _ hr
    refine ⟨hv, fun v' hv' => ?_⟩
    have heq := List.inj_on_of_nodup_map paired.once hv' hv rfl
    exact (Prod.mk.inj heq).2
  · have token := paired.token
    unfold Token at token
    dsimp only at token
    cases hpc : c.pc with
    | running =>
      rw [hpc] at token
      rw [token.1, token.2]
      exact Nat.zero_le _
    | posting args addr =>
      rw [hpc] at token
      rw [token.1, token.2.1]
      exact Nat.zero_le _
    | waiting r addr =>
      rw [hpc] at token
      obtain ⟨_, ⟨hsem, hout⟩ | ⟨hsem, hout, _⟩⟩ := token
      · rw [hsem, hout]
        exact Nat.le_refl _
      · rw [hsem, hout]
        exact Nat.le_refl _
    | reading r addr =>
      rw [hpc] at token
      rw [token.1, token.2.1]
      exact Nat.zero_le _

/-! ## A run -/

/-- Whether a post is a request with its result at an address. -/
def isRequestFor (cfg : Config) (b : Backend Task) (ctx : Ctx) (addr : UInt32) : Bool :=
  ((b.find ctx.taskId).bind Entry.taskEntry).any fun task =>
    task.resultAddr cfg ctx == some addr && writesResult cfg addr

/-- The test for a request of this address is that property. -/
theorem RequestFor.of_test {b : Backend Task} {ctx : Ctx} {addr : UInt32}
    (h : isRequestFor cfg b ctx addr = true) : RequestFor cfg b ctx addr := by
  obtain ⟨task, htask, h⟩ := (Option.any_eq_true _ _).mp h
  obtain ⟨haddr, hwrites⟩ := Bool.and_eq_true_iff.mp h
  obtain ⟨entry, hfind, hentry⟩ := Option.bind_eq_some_iff.mp htask
  exact ⟨task, ⟨entry, hfind, hentry⟩, beq_iff_eq.mp haddr, hwrites⟩

/-- Whether a step keeps the era, and is a call for a result, or no post. -/
def isPaired (cfg : Config) (c : Caller) : CallerEvent → Bool
  | .act e =>
    (c.act cfg e).all (fun c' => c'.system.bus.rest.era == c.system.bus.rest.era) &&
      match e with
      | .appPost _ | .post _ | .postDelay _ _ => false
      | _ => true
  | .call args addr => isRequestFor cfg c.system.bus.backend args.ctx addr
  | _ => true

/-- A step that the test lets pass. -/
theorem PairedStep.of_test {e : CallerEvent} (check : c.isPaired cfg e = true)
    (step : c.step cfg e = some c') : PairedStep cfg c e c' := by
  refine ⟨step, ?_⟩
  cases e with
  | act e =>
    obtain ⟨hera, hother⟩ := Bool.and_eq_true_iff.mp check
    have step : c.act cfg e = some c' := step
    rw [step] at hera
    refine ⟨beq_iff_eq.mp hera, ?_⟩
    cases e <;> first | exact trivial | cases hother
  | call args addr => exact RequestFor.of_test check
  | _ => trivial

/-- The system after boot with its application not running. -/
def bootCaller : Option Caller :=
  bootSystem.map fun s => { system := s, pc := .running, results := [], returned := [] }

/-- Booting is a start. -/
theorem bootCaller_start (h : bootCaller = some c) : c.Start := by
  obtain ⟨s, hs, rfl⟩ := Option.map_eq_some_iff.mp h
  exact ⟨bootSystem_start hs, rfl, rfl, rfl⟩

/-- The `INIT` events are handled, and the first starts the application. -/
def startUp : List Event :=
  untilDrain ++ [.drain, .dispatch, .start loadedOk, .finish] ++ untilDrain ++
    [.drain, .dispatch, .finish]

/-- The diagnostics task gets a request and completes it with 3. -/
def serveAdd : List Event := untilDrain ++ [.drain, .drain, .dispatch, .complete 3, .finish]

/-- The application is started and calls `runtime_diagnostics_add` for 1 and 2. -/
def addCall : List CallerEvent :=
  startUp.map .act ++ [.call addPost 0x20020000, .post] ++ serveAdd.map .act ++ [.take, .read]

/-- The call returns what the diagnostics task passed. -/
theorem add_returned : ∃ c r, Run.Reachable Start (PairedStep defaultConfig) c ∧
    (r, 3) ∈ c.returned ∧ (r, 3) ∈ c.results ∧
      c.system.bus.rest.resultSem + (c.outstanding defaultConfig).length ≤ 1 := by
  obtain ⟨_, c, hboot, run, htest⟩ := Run.exists_of_bind_follow (step defaultConfig)
    (isPaired defaultConfig) addCall bootCaller (fun c => c.returned.any fun x => x.2 == 3)
    (by decide +kernel)
  obtain ⟨⟨r, v⟩, hmem, hv⟩ := List.any_eq_true.mp htest
  obtain rfl : v = 3 := beq_iff_eq.mp hv
  have reach : Run.Reachable Start (PairedStep defaultConfig) c :=
    .follow (fun _ _ _ => PairedStep.of_test) (.start (bootCaller_start hboot)) run
  obtain ⟨hpaired, hcount⟩ := returned_is_passed reach
  exact ⟨c, r, reach, hmem, (hpaired r 3 hmem).1, hcount⟩

end Caller

end Rtbus.Native
