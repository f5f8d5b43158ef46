import Rtbus.Native.Requests
import Rtbus.Native.Stop

/-!
# Remote calls

`RemoteStep` is a step of the application and the runtime in which the application asks for results
through the functions of the runtime API, and the tasks answer with what they compute from the
request they find. `service` says which values the drivers behind a call may answer with; the sum of
`runtime_diagnostics_add` is computed by its task.

Behind all the queues, threads and tasks between them the two sides see procedure calls
(`remote_calls`): each call is executed once, in the order of the calls, and returns what its task
computed from the arguments it was called with. `Remote` is the invariant: the results that have not
been returned are at most the one that is on its way to the application.
-/

namespace Rtbus.Native

open Rtbus.Emos

/-- Whether a value is an answer to a call. In `rtbus_diagnostics_process` it is the sum, where that
does not overflow; `service` says what the others are. -/
def RemoteCall.Answer (service : RemoteCall → UInt32 → Prop) : RemoteCall → UInt32 → Prop
  | .diagnosticsAdd lhs rhs, result =>
    -2 ^ 31 ≤ lhs.toInt + rhs.toInt → lhs.toInt + rhs.toInt < 2 ^ 31 →
      result.toInt32.toInt = lhs.toInt + rhs.toInt
  | call, result => service call result

/-- A context is the request of a call, and is served by the task of the call. -/
def RemoteCall.Made (b : Backend Task) (call : RemoteCall) (ctx : Ctx) : Prop :=
  ∃ addr, ctx = (call.post addr).ctx ∧ ServedBy b ctx call.task

variable {cfg : Config} {service : RemoteCall → UInt32 → Prop}

/-- A context is the request of one call. -/
theorem RemoteCall.Made.unique {b : Backend Task} {call call' : RemoteCall} {ctx : Ctx}
    (h : call.Made b ctx) (h' : call'.Made b ctx) : call = call' := by
  obtain ⟨addr, hctx, served⟩ := h
  obtain ⟨addr', hctx', served'⟩ := h'
  have supported : ∀ call : RemoteCall,
      call.supported { defaultConfig with diagnosticsService := true } = true := by
    intro call
    cases call <;> rfl
  have found := requested_post (supported call) addr
  rw [← hctx, served.unique served', hctx', requested_post (supported call')] at found
  exact (Option.some.inj found).symm

/-- `rtbus_diagnostics_process`, with what it does to the native service. -/
def rtbusDiagnosticsProcess (cfg : Config) (loaded : Loaded) (ctx : Ctx) (v : Service) : Service :=
  if ctx.id = sysEvt sysInit then (nativeServiceStart loaded v).1
  else
    match diagnosticsRequest cfg ctx with
    | some (.diagnosticsAdd lhs rhs) =>
      (nativeServiceCompleteResult cfg (wordAt ctx.payload 0) (lhs + rhs).toUInt32 v).1
    | _ => v

/-- The sum is an answer. -/
theorem diagnosticsAdd_answer (service : RemoteCall → UInt32 → Prop) (lhs rhs : Int32) :
    (RemoteCall.diagnosticsAdd lhs rhs).Answer service (lhs + rhs).toUInt32 := by
  intro hlow hhigh
  show (lhs + rhs).toInt = _
  rw [Int32.toInt_add]
  exact Int.bmod_eq_of_le (by omega) (by omega)

/-- A handler that serves a request can complete it. -/
theorem complete_of_resultAddr {s : System} {call : Call} {addr : UInt32}
    (handling : s.pc = .handling call) (open_ : call.completed = false)
    (haddr : call.task.resultAddr cfg call.ctx = some addr) (result : UInt32) :
    ∃ s', s.complete cfg result = some s' ∧
      s'.bus.rest = (nativeServiceCompleteResult cfg addr result s.bus.rest).1 := by
  unfold System.complete
  rw [handling]
  dsimp only
  rw [open_, haddr]
  exact ⟨_, rfl, rfl⟩

/-- The steps of the system in the handler of the diagnostics task are those of the code, and what
it completes is an answer. -/
theorem diagnostics_handler {s : System} {call : Call} (handling : s.pc = .handling call)
    (task : call.task = .diagnostics) (open_ : call.completed = false) (loaded : Loaded) :
    ∃ es s', System.run cfg es s = some s' ∧
      s'.bus.rest = rtbusDiagnosticsProcess cfg loaded call.ctx s.bus.rest ∧
      ∀ result, Event.complete result ∈ es → ∀ k, call.task.requested cfg call.ctx = some k →
        k.Answer service result := by
  unfold rtbusDiagnosticsProcess
  by_cases hinit : call.ctx.id = sysEvt sysInit
  · refine ⟨[.start loaded], s.setService (nativeServiceStart loaded s.bus.rest).1, ?_, ?_,
      fun result hmem => ?_⟩
    · show (s.start loaded).bind _ = _
      unfold System.start
      rw [handling]
      dsimp only
      rw [if_pos ⟨task, hinit⟩]
      rfl
    · rw [if_pos hinit]
      rfl
    · cases List.mem_singleton.mp hmem
  · rw [if_neg hinit]
    have hrequested : call.task.requested cfg call.ctx = diagnosticsRequest cfg call.ctx := by
      rw [task]
      rfl
    have hsome := @requested_isSome cfg call.task call.ctx
    rw [hrequested] at hsome ⊢
    have hnone : ∀ k, diagnosticsRequest cfg call.ctx = some k →
        ∃ lhs rhs, k = .diagnosticsAdd lhs rhs := by
      intro k hk
      unfold diagnosticsRequest at hk
      split at hk
      · split at hk <;> cases hk
        exact ⟨_, _, rfl⟩
      · cases hk
    cases hreq : diagnosticsRequest cfg call.ctx with
    | none => exact ⟨[], s, rfl, rfl, fun result hmem => nomatch hmem⟩
    | some k =>
      obtain ⟨lhs, rhs, rfl⟩ := hnone k hreq
      rw [hreq] at hsome
      obtain ⟨addr, haddr⟩ := Option.isSome_iff_exists.mp hsome.symm
      have hword : wordAt call.ctx.payload 0 = addr := resultAddr_eq haddr
      obtain ⟨s', hstep, hrest⟩ :=
        complete_of_resultAddr handling open_ haddr (lhs + rhs).toUInt32
      refine ⟨[.complete (lhs + rhs).toUInt32], s', ?_, ?_, fun result hmem k hk => ?_⟩
      · show (s.complete cfg _).bind _ = _
        rw [hstep]
        rfl
      · rw [hword]
        exact hrest
      · cases hk
        cases List.mem_singleton.mp hmem
        exact diagnosticsAdd_answer service lhs rhs

/-- The request for which the application is in a call: it waits for the result or is about to read
it. -/
def CallPc.pending : CallPc → Option Request
  | .waiting r _ | .reading r _ => some r
  | _ => none

namespace Caller

variable {c c' : Caller}

/-- A step of one incarnation of the application in which every request with a result is made by a
function of the runtime API, and is answered by its task. -/
def RemoteStep (cfg : Config) (service : RemoteCall → UInt32 → Prop) (c : Caller) (e : CallerEvent)
    (c' : Caller) : Prop :=
  PairedStep cfg c e c' ∧
    match e with
    | .act (.complete result) => ∀ call k, c.system.pc = .handling call →
        call.task.requested cfg call.ctx = some k → k.Answer service result
    | .call args addr => ∃ k : RemoteCall, args = k.post addr ∧ k.supported cfg = true ∧
        ServedBy c.system.bus.backend args.ctx k.task
    | _ => True

/-- The invariant. -/
structure Remote (cfg : Config) (service : RemoteCall → UInt32 → Prop) (c : Caller) : Prop where
  paired : c.Paired cfg
  /-- At most the result for the pending request has not been returned. -/
  sync : c.results = c.returned ∨ ∃ r v, c.pc.pending = some r ∧ c.results = c.returned ++ [(r, v)]
  posting : ∀ args addr, c.pc = .posting args addr → ∃ k : RemoteCall, args = k.post addr ∧
    k.supported cfg = true ∧ ServedBy c.system.bus.backend args.ctx k.task
  pending : ∀ r, c.pc.pending = some r → (∀ v, (r, v) ∉ c.returned) ∧
    ∃ k : RemoteCall, k.supported cfg = true ∧ k.Made c.system.bus.backend r.msg.ctx
  answered : ∀ x ∈ c.results, ∃ k : RemoteCall, k.Made c.system.bus.backend x.1.msg.ctx ∧
    k.Answer service x.2

/-! ## What a step does to the calls -/

/-- What the two sides of a call see of a step. -/
inductive Seen (c : Caller) : CallerEvent → Caller → Prop
  | nothing {e : CallerEvent} {c' : Caller} (pc : c'.pc = c.pc) (results : c'.results = c.results)
      (returned : c'.returned = c.returned) : Seen c e c'
  | called {args : PostArgs} {addr : UInt32} {c' : Caller} (before : c.pc = .running)
      (pc : c'.pc = .posting args addr) (results : c'.results = c.results)
      (returned : c'.returned = c.returned) : Seen c (.call args addr) c'
  | refused {c' : Caller} (before : c.pc.pending = none) (pc : c'.pc = .running)
      (results : c'.results = c.results) (returned : c'.returned = c.returned) : Seen c .post c'
  | posted {args : PostArgs} {addr : UInt32} {r : Request} {c' : Caller}
      (before : c.pc = .posting args addr) (pc : c'.pc = .waiting r addr)
      (ctx : r.msg.ctx = args.ctx) (fresh : r ∉ c.done) (results : c'.results = c.results)
      (returned : c'.returned = c.returned) : Seen c .post c'
  | answered {call : Call} {r : Request} {result : UInt32} {c' : Caller}
      (handling : c.system.pc = .handling call) (ctx : call.ctx = r.msg.ctx)
      (served : ServedBy c.system.bus.backend call.ctx call.task) (waits : c.pc.pending = some r)
      (fresh : r ∉ c.done) (pc : c'.pc = c.pc) (results : c'.results = c.results ++ [(r, result)])
      (returned : c'.returned = c.returned) : Seen c (.act (.complete result)) c'
  | taken {r : Request} {addr : UInt32} {c' : Caller} (before : c.pc = .waiting r addr)
      (pc : c'.pc = .reading r addr) (results : c'.results = c.results)
      (returned : c'.returned = c.returned) : Seen c .take c'
  | read {r : Request} {v : UInt32} {c' : Caller} (before : c.pc.pending = some r)
      (pc : c'.pc = .running) (passed : (r, v) ∈ c.results) (results : c'.results = c.results)
      (returned : c'.returned = c.returned ++ [(r, v)]) : Seen c .read c'

/-- The request that a handler answers is the one that the application waits for. -/
theorem Paired.waits (h : c.Paired cfg) {r : Request} (accepted : r ∈ c.system.bus.rest.accepted)
    (open_ : c.isOutstanding cfg r = true) : c.pc.pending = some r ∧ r ∉ c.done := by
  have hmem : r ∈ c.outstanding cfg := List.mem_filter.mpr ⟨accepted, open_⟩
  have hnew : r ∉ c.done := by
    unfold isOutstanding at open_
    have hopen := (Bool.and_eq_true_iff.mp open_).2
    rw [List.contains_eq_mem, Bool.not_eq_true'] at hopen
    exact of_decide_eq_false hopen
  refine ⟨?_, hnew⟩
  have token := h.token
  unfold Token at token
  cases hpc : c.pc with
  | running =>
    rw [hpc] at token
    rw [token.2] at hmem
    cases hmem
  | posting args addr =>
    rw [hpc] at token
    rw [token.2.1] at hmem
    cases hmem
  | reading r' addr =>
    rw [hpc] at token
    rw [token.2.1] at hmem
    cases hmem
  | waiting r' addr =>
    rw [hpc] at token
    obtain ⟨_, ⟨_, hout⟩ | ⟨_, hout, _⟩⟩ := token
    · rw [hout] at hmem
      rw [List.mem_singleton.mp hmem]
      rfl
    · rw [hout] at hmem
      cases hmem

/-- A step of the system. -/
theorem Paired.seen_act (h : c.Paired cfg) {e : Event} (step : c.act cfg e = some c') :
    Seen c (.act e) c' := by
  unfold Caller.act at step
  split at step
  · cases step
  · obtain ⟨s', hstep, rfl⟩ := Option.map_eq_some_iff.mp step
    by_cases other : ∀ result, e ≠ .complete result
    · refine .nothing rfl ?_ rfl
      rw [passed_of_other other, List.append_nil]
    · obtain ⟨result, he⟩ := not_forall.mp other
      obtain rfl := not_not.mp he
      obtain ⟨call, addr, hpc, hopen, haddr, _⟩ := complete_cases hstep
      rcases h.passed result hpc hopen haddr with
        ⟨_, hnone⟩ | ⟨r, _, hpassed, hreq, hacc, hout, _⟩
      · refine .nothing rfl ?_ rfl
        rw [hnone, List.append_nil]
      · obtain ⟨bs, q, t⟩ := h.tracked
        obtain ⟨_, carries, served⟩ := t.handling call hpc
        rw [hreq] at carries
        obtain ⟨waits, fresh⟩ := h.waits hacc hout
        exact .answered hpc carries served waits fresh rfl (congrArg (c.results ++ ·) hpassed) rfl

/-- What is seen of a step. -/
theorem Paired.seen (h : c.Paired cfg) {e : CallerEvent} (step : c.step cfg e = some c') :
    Seen c e c' := by
  cases e with
  | act e => exact h.seen_act step
  | write ram =>
    have step : c.write ram = some c' := step
    unfold Caller.write at step
    split at step <;> cases step
    exact .nothing rfl rfl rfl
  | call args addr =>
    have step : c.call args addr = some c' := step
    unfold Caller.call at step
    split at step
    · rename_i hrunning
      cases step
      refine .called ?_ rfl rfl rfl
      cases hpc : c.pc with
      | running => rfl
      | _ =>
        rw [hpc] at hrunning
        cases hrunning
    · cases step
  | post =>
    have step : c.post = some c' := step
    unfold Caller.post at step
    split at step
    · rename_i args addr hpc
      cases hpost : nativeApiRtbusPost args c.system.bus with
      | mk bus ret =>
        have posted := nativeApiRtbusPost_spec hpost
        rw [hpost] at step
        dsimp only at step
        rcases posted.accepted with ⟨hret, hacc⟩ | ⟨rfl, r, hctx, hnumber, hacc⟩
        · split at step
          · exact absurd rfl hret
          · cases step
            refine .refused ?_ rfl rfl rfl
            rw [hpc]
            rfl
        · rw [hacc, List.getLast?_concat] at step
          cases step
          exact .posted hpc rfl hctx (h.fresh hnumber) rfl rfl
    · cases step
  | take =>
    have step : c.take = some c' := step
    unfold Caller.take at step
    split at step
    · rename_i r addr hpc
      split at step <;> cases step
      exact .taken hpc rfl rfl rfl
    · cases step
  | read =>
    have step : c.read = some c' := step
    unfold Caller.read at step
    split at step
    · rename_i r addr hpc
      cases step
      have token := h.token
      unfold Token at token
      rw [hpc] at token
      obtain ⟨_, _, v, hv, hload⟩ := token
      refine .read ?_ rfl hv rfl ?_
      · rw [hpc]
        rfl
      · show c.returned ++ [(r, _)] = _
        rw [hload, UInt32.ofNat_toNat]
    · cases step

/-- The backend stays what it is. -/
theorem Paired.step_backend (h : c.Paired cfg) {e : CallerEvent} (step : PairedStep cfg c e c') :
    c'.system.bus.backend = c.system.bus.backend := by
  obtain ⟨step, may⟩ := step
  cases e with
  | act e =>
    have step : c.act cfg e = some c' := step
    unfold Caller.act at step
    split at step
    · cases step
    · obtain ⟨s', hstep, rfl⟩ := Option.map_eq_some_iff.mp step
      have plain : ∀ ctx, completesFor cfg c.system.bus.backend ctx = false →
          ¬ CtxCompletes cfg c.system.bus.backend ctx := by
        intro ctx hplain hcompletes
        rw [completesFor_iff.mpr hcompletes] at hplain
        cases hplain
      refine (h.advance ?_ may.1 hstep).2.2
      cases e with
      | post args => exact ⟨may.2.1, plain _ may.2.2⟩
      | postDelay args delayMs => exact ⟨may.2.1, plain _ may.2.2⟩
      | _ => trivial
  | write ram =>
    have step : c.write ram = some c' := step
    unfold Caller.write at step
    split at step <;> cases step
    rfl
  | call args addr =>
    have step : c.call args addr = some c' := step
    unfold Caller.call at step
    split at step <;> cases step
    rfl
  | post =>
    have step : c.post = some c' := step
    unfold Caller.post at step
    split at step
    · rename_i args addr hpc
      cases hpost : nativeApiRtbusPost args c.system.bus with
      | mk bus ret =>
        have posted := nativeApiRtbusPost_spec hpost
        rw [hpost] at step
        dsimp only at step
        split at step <;> cases step <;> exact posted.backend
    · cases step
  | take =>
    have step : c.take = some c' := step
    unfold Caller.take at step
    split at step
    · split at step <;> cases step
      rfl
    · cases step
  | read =>
    have step : c.read = some c' := step
    unfold Caller.read at step
    split at step <;> cases step
    rfl

/-! ## Calls are remote procedure calls -/

/-- What the answers depend on. -/
theorem Remote.answered_of (h : c.Remote cfg service)
    (backend : c'.system.bus.backend = c.system.bus.backend) (results : c'.results = c.results) :
    ∀ x ∈ c'.results, ∃ k : RemoteCall, k.Made c'.system.bus.backend x.1.msg.ctx ∧
      k.Answer service x.2 := by
  rw [backend, results]
  exact h.answered

/-- While the application is in no call, every result has been returned. -/
theorem Remote.returned_all (h : c.Remote cfg service) (outside : c.pc.pending = none) :
    c.results = c.returned := by
  rcases h.sync with hsync | ⟨r, v, hpending, _⟩
  · exact hsync
  · rw [outside] at hpending
    cases hpending

/-- The result of a request that has none was not returned. -/
theorem Remote.not_returned (h : c.Remote cfg service) {r : Request} (fresh : r ∉ c.done)
    (v : UInt32) : (r, v) ∉ c.returned :=
  fun hv => fresh (List.mem_map_of_mem (f := Prod.fst) (h.paired.returned _ hv))

/-- Every step keeps the invariant. -/
theorem Remote.step (h : c.Remote cfg service) {e : CallerEvent}
    (step : RemoteStep cfg service c e c') : c'.Remote cfg service := by
  obtain ⟨paired, remote⟩ := step
  have backend := h.paired.step_backend paired
  have hpaired := h.paired.step paired
  cases h.paired.seen paired.1 with
  | nothing pc results returned =>
    refine ⟨hpaired, ?_, ?_, ?_, h.answered_of backend results⟩
    · rw [pc, results, returned]
      exact h.sync
    · rw [pc, backend]
      exact h.posting
    · rw [pc, backend, returned]
      exact h.pending
  | called before pc results returned =>
    have hnone : c.pc.pending = none := by rw [before]; rfl
    refine ⟨hpaired, .inl ?_, fun args' addr' hpc => ?_, fun r hr => ?_,
      h.answered_of backend results⟩
    · rw [results, returned]
      exact h.returned_all hnone
    · rw [pc] at hpc
      cases hpc
      rw [backend]
      exact remote
    · rw [pc] at hr
      cases hr
  | refused before pc results returned =>
    refine ⟨hpaired, .inl ?_, fun args' addr' hpc => ?_, fun r hr => ?_,
      h.answered_of backend results⟩
    · rw [results, returned]
      exact h.returned_all before
    · rw [pc] at hpc
      cases hpc
    · rw [pc] at hr
      cases hr
  | posted before pc ctx fresh results returned =>
    have hnone : c.pc.pending = none := by rw [before]; rfl
    refine ⟨hpaired, .inl ?_, fun args' addr' hpc => ?_, fun r' hr => ?_,
      h.answered_of backend results⟩
    · rw [results, returned]
      exact h.returned_all hnone
    · rw [pc] at hpc
      cases hpc
    · rw [pc] at hr
      cases hr
      obtain ⟨k, hargs, supported, served⟩ := h.posting _ _ before
      rw [returned, backend, ctx]
      exact ⟨h.not_returned fresh, k, supported, _, by rw [hargs], served⟩
  | taken before pc results returned =>
    have hpending : c'.pc.pending = c.pc.pending := by rw [pc, before]; rfl
    refine ⟨hpaired, ?_, fun args' addr' hpc => ?_, ?_, h.answered_of backend results⟩
    · rw [hpending, results, returned]
      exact h.sync
    · rw [pc] at hpc
      cases hpc
    · rw [hpending, backend, returned]
      exact h.pending
  | @answered call r result _ handling ctx served waits fresh pc results returned =>
    obtain ⟨_, k, supported, made⟩ := h.pending r waits
    -- the handler finds the call that the application has made
    have hrequested : call.task.requested cfg call.ctx = some k := by
      obtain ⟨addr, hmade, hserved⟩ := made
      rw [← ctx] at hserved
      rw [served.unique hserved, ctx, hmade]
      exact requested_post supported addr
    have hall : c.results = c.returned := by
      rcases h.sync with hsync | ⟨r', v', hpending, hsync⟩
      · exact hsync
      · obtain rfl : r = r' := Option.some.inj (waits.symm.trans hpending)
        refine absurd ?_ fresh
        unfold Caller.done
        rw [hsync, List.map_append]
        exact List.mem_append_right _ (List.mem_singleton.mpr rfl)
    refine ⟨hpaired, .inr ⟨r, result, ?_, ?_⟩, ?_, ?_, fun x hx => ?_⟩
    · rw [pc]
      exact waits
    · rw [results, returned, hall]
    · rw [pc, backend]
      exact h.posting
    · rw [pc, backend, returned]
      exact h.pending
    · rw [results] at hx
      rw [backend]
      rcases List.mem_append.mp hx with hx | hx
      · exact h.answered x hx
      · rw [List.mem_singleton.mp hx]
        exact ⟨k, made, remote call k handling hrequested⟩
  | @read r v _ before pc passed results returned =>
    refine ⟨hpaired, .inl ?_, fun args' addr' hpc => ?_, fun r' hr => ?_,
      h.answered_of backend results⟩
    · rcases h.sync with hsync | ⟨r', v', hpending, hsync⟩
      · rw [hsync] at passed
        exact absurd passed ((h.pending r before).1 v)
      · obtain rfl : r = r' := Option.some.inj (before.symm.trans hpending)
        rw [hsync] at passed
        rcases List.mem_append.mp passed with hold | hnew
        · exact absurd hold ((h.pending r before).1 v)
        · rw [results, returned, hsync, List.mem_singleton.mp hnew]
    · rw [pc] at hpc
      cases hpc
    · rw [pc] at hr
      cases hr

theorem Start.remote (start : c.Start) : c.Remote cfg service := by
  have paired : c.Paired cfg := start.paired
  obtain ⟨_, hpc, hresults, hreturned⟩ := start
  refine ⟨paired, .inl ?_, fun args addr h => ?_, fun r h => ?_, fun x hx => ?_⟩
  · rw [hresults, hreturned]
  · rw [hpc] at h
    cases h
  · rw [hpc] at h
    cases h
  · rw [hresults] at hx
    cases hx

/-- In every run in which the application makes its requests through the runtime API, calls are
executed once and in order: what has been returned is what the tasks have answered, in the order of
the answers, but for one answer on its way to the application. Each request is that of one call, and
what it returns is an answer to that call. -/
theorem remote_calls (h : Run.Reachable Start (RemoteStep cfg service) c) :
    c.returned <+: c.results ∧ c.results.length ≤ c.returned.length + 1 ∧
      (c.results.map Prod.fst).Nodup ∧
      ∀ r v, (r, v) ∈ c.returned → (∃ k : RemoteCall, k.Made c.system.bus.backend r.msg.ctx) ∧
        ∀ k : RemoteCall, k.Made c.system.bus.backend r.msg.ctx → k.Answer service v := by
  have remote : c.Remote cfg service :=
    Run.Reachable.invariant (I := Remote cfg service) (fun _ => Start.remote)
      (fun _ _ _ h => h.step) h
  have hpre : c.returned <+: c.results ∧ c.results.length ≤ c.returned.length + 1 := by
    rcases remote.sync with hsync | ⟨r, v, _, hsync⟩
    · rw [hsync]
      exact ⟨List.prefix_refl _, Nat.le_succ _⟩
    · rw [hsync, List.length_append]
      exact ⟨List.prefix_append _ _, Nat.le_refl _⟩
  refine ⟨hpre.1, hpre.2, remote.paired.once, fun r v hr => ?_⟩
  obtain ⟨k, made, answer⟩ := remote.answered (r, v) (remote.paired.returned _ hr)
  refine ⟨⟨k, made⟩, fun k' made' => ?_⟩
  rw [made'.unique made]
  exact answer

/-! ## A run -/

/-- Whether two posts are the same. -/
def samePost (a b : PostArgs) : Bool :=
  a.taskId == b.taskId && a.ctxId == b.ctxId && a.payload == b.payload &&
    a.payloadLen == b.payloadLen

theorem eq_of_samePost {a b : PostArgs} (h : samePost a b = true) : a = b := by
  obtain ⟨taskId, ctxId, payload, payloadLen, _⟩ := a
  obtain ⟨taskId', ctxId', payload', payloadLen', _⟩ := b
  simp only [samePost, Bool.and_eq_true, beq_iff_eq] at h
  obtain ⟨⟨⟨rfl, rfl⟩, rfl⟩, rfl⟩ := h
  rfl

/-- Whether a value is the sum that a call asks for. -/
def isSum : RemoteCall → UInt32 → Bool
  | .diagnosticsAdd lhs rhs, result => result.toInt32.toInt == lhs.toInt + rhs.toInt
  | _, _ => false

/-- Whether a step is one of a run in which the only calls are sums. -/
def isRemote (cfg : Config) (c : Caller) (e : CallerEvent) : Bool :=
  c.isPaired cfg e &&
    match e with
    | .act (.complete result) =>
      match c.system.pc with
      | .handling call => (call.task.requested cfg call.ctx).all (isSum · result)
      | _ => true
    | .call args addr =>
      ((c.system.bus.backend.find args.taskId).bind Entry.taskEntry).any fun task =>
        (task.requested cfg args.ctx).any fun k =>
          k.task == task && k.supported cfg && samePost args (k.post addr)
    | _ => true

theorem RemoteStep.of_test {e : CallerEvent} (check : c.isRemote cfg e = true)
    (step : c.step cfg e = some c') : RemoteStep cfg service c e c' := by
  obtain ⟨hpaired, hother⟩ := Bool.and_eq_true_iff.mp check
  refine ⟨.of_test hpaired step, ?_⟩
  cases e with
  | act e =>
    cases e with
    | complete result =>
      intro call k hpc hrequested
      dsimp only at hother
      rw [hpc] at hother
      dsimp only at hother
      rw [hrequested] at hother
      cases k with
      | diagnosticsAdd lhs rhs => exact fun _ _ => beq_iff_eq.mp hother
      | _ => cases hother
    | _ => trivial
  | call args addr =>
    obtain ⟨task, htask, h⟩ := (Option.any_eq_true _ _).mp hother
    obtain ⟨entry, hfind, hentry⟩ := Option.bind_eq_some_iff.mp htask
    obtain ⟨k, _, h⟩ := (Option.any_eq_true _ _).mp h
    simp only [Bool.and_eq_true, beq_iff_eq] at h
    obtain ⟨⟨rfl, hsupported⟩, hsame⟩ := h
    exact ⟨k, eq_of_samePost hsame, hsupported, entry, hfind, hentry⟩
  | _ => trivial

/-- The sum of 1 and 2 is returned. -/
theorem sum_returned : ∃ c r v, Run.Reachable Start (RemoteStep defaultConfig fun _ _ => False) c ∧
    (r, v) ∈ c.returned ∧ c.returned <+: c.results ∧ v.toInt32.toInt = 1 + 2 := by
  obtain ⟨_, c, hboot, run, htest⟩ := Run.exists_of_bind_follow (step defaultConfig)
    (isRemote defaultConfig) addCall bootCaller
    (fun c => c.returned.any fun x =>
      x.1.msg.ctx == (RemoteCall.post 0x20020000 (.diagnosticsAdd 1 2)).ctx &&
        ((c.system.bus.backend.find 0).bind Entry.taskEntry) == some Task.diagnostics)
    (by decide +kernel)
  obtain ⟨⟨r, v⟩, hmem, hv⟩ := List.any_eq_true.mp htest
  obtain ⟨hctx, htask⟩ := Bool.and_eq_true_iff.mp hv
  obtain ⟨entry, hfind, hentry⟩ := Option.bind_eq_some_iff.mp (beq_iff_eq.mp htask)
  have reach : Run.Reachable Start (RemoteStep defaultConfig fun _ _ => False) c :=
    .follow (fun _ _ _ => RemoteStep.of_test) (.start (bootCaller_start hboot)) run
  obtain ⟨hpre, _, _, hanswer⟩ := remote_calls reach
  have hctx := beq_iff_eq.mp hctx
  have made : (RemoteCall.diagnosticsAdd 1 2).Made c.system.bus.backend r.msg.ctx :=
    ⟨_, hctx, entry, by rw [hctx]; exact hfind, hentry⟩
  exact ⟨c, r, v, reach, hmem, hpre, (hanswer r v hmem).2 _ made (by decide) (by decide)⟩

end Caller

end Rtbus.Native
