import Rtbus.Emos.Refinement
import Rtbus.Native.Courier
import Rtbus.Native.System

/-!
# The system is a courier

`Tracked own s bs q` is the invariant of the system: the bus is ready with the queues `q`, the tags
name the queued events in order, the event that is being handled is still the first of its queue,
and every dispatched request went to the task it is for. `own` is what is known of the contexts that
the runtime posts itself.

`step_refines` says what any step does to the history: nothing, or one step of the courier.
-/

namespace Rtbus.Native

open Rtbus.Emos Rtbus.Pool Rtbus.Tiling

/-- The event that is being handled, as a tag. -/
def Pc.serving : Pc → Option (Option Request)
  | .handling call => some call.request
  | _ => none

/-- The nodes of a queue that wait: all but the one that is being handled. -/
def Pc.behind (pc : Pc) (p : Nat) (l : List Node) : List Node :=
  match pc with
  | .handling call => if call.priority = p then l.tail else l
  | _ => l

/-- The history of a system. -/
def System.view (s : System) : Courier Request :=
  { accepted := s.bus.rest.accepted
    waiting := s.bus.rest.postMsgq
    queued := s.tags
    served := s.calls.map Dispatch.request
    serving := s.pc.serving
    refused := s.refused
    era := s.bus.rest.era
    completions := s.completions.map fun d => (d.request, d.era) }

/-- A context is that of the request it is tagged with, or one of the runtime's own. -/
def Carries (own : Ctx → Prop) (ctx : Ctx) : Option Request → Prop
  | some r => ctx = r.msg.ctx
  | none => own ctx

/-- The task of a context. -/
def ServedBy (b : Backend Task) (ctx : Ctx) (task : Task) : Prop :=
  ∃ entry, b.find ctx.taskId = some entry ∧ entry.taskEntry = some task

/-- The accepted messages are numbered, and those of the current era were posted by the application
thread that exists. -/
def Service.Consistent (v : Service) : Prop :=
  ∀ r ∈ v.accepted, r.number < v.accepted.length ∧ r.era ≤ v.era ∧
    (r.era = v.era → v.threadId = true)

/-- The invariant of the system. -/
structure Tracked (own : Ctx → Prop) (s : System) (bs : List Block) (q : Nat → List Node) :
    Prop where
  ready : Ready s.bus bs q
  slots : SlotsFit s.bus
  ownSlots : ∀ event ∈ s.bus.delayed, event.used = true → own event.args.ctx
  tags : ∀ p, List.Forall₂ (fun n tag => Carries own n.ctx tag) (s.pc.behind p (q p)) (s.tags p)
  handling : ∀ call, s.pc = .handling call →
    (∃ rest, q call.priority = ⟨call.node, call.ctx⟩ :: rest) ∧
      Carries own call.ctx call.request ∧ ServedBy s.bus.backend call.ctx call.task
  history : s.bus.rest.Consistent
  calls : ∀ d ∈ s.calls, Carries own d.ctx d.request ∧ ServedBy s.bus.backend d.ctx d.task

/-- A task completes the request with this context for the application. -/
def CtxCompletes (cfg : Config) (b : Backend Task) (ctx : Ctx) : Prop :=
  ∃ task, ServedBy b ctx task ∧ task.Completes cfg ctx

/-- The rules of the courier that the system is. -/
def rules (cfg : Config) (b : Backend Task) (own : Ctx → Prop) (mayRefuse : Request → Prop)
    (mayStop : Courier Request → Prop) : Courier.Rules Request :=
  { eraOf := Request.era
    mayRefuse := mayRefuse
    completes := fun tag => ∃ ctx, Carries own ctx tag ∧ CtxCompletes cfg b ctx
    mayStop := mayStop }

variable {cfg : Config} {own : Ctx → Prop} {s : System} {bs : List Block} {q : Nat → List Node}

/-! ## Delayed events -/

/-- What is posted for a slot has the context that was stored. -/
theorem delayedEvent_ctx (event : DelayedEvent) :
    event.args.ctx = { taskId := event.taskId, id := event.ctxId, payload := event.payload } := by
  show Ctx.mk event.taskId event.ctxId event.args.bytes = _
  rw [event.args_bytes]

/-! ## What leaves the queues alone -/

namespace Tracked

/-- The queues of a system whose bus changed elsewhere. -/
theorem of_bus (t : Tracked own s bs q) {bus : Bus Task Service} (heap : bus.heap = s.bus.heap)
    (tbl : bus.taskTbl = s.bus.taskTbl) (backend : bus.backend = s.bus.backend)
    (count : bus.entryCount = s.bus.entryCount) (slots : SlotsFit bus)
    (ownSlots : ∀ event ∈ bus.delayed, event.used = true → own event.args.ctx)
    (history : bus.rest.Consistent) :
    Tracked own { s with bus := bus } bs q := by
  refine ⟨t.ready.congr heap tbl backend count, slots, ownSlots, t.tags, fun call h => ?_, history,
    fun d hd => ?_⟩
  · obtain ⟨hq, hcarries, hserved⟩ := t.handling call h
    exact ⟨hq, hcarries, by rw [backend]; exact hserved⟩
  · obtain ⟨hcarries, hserved⟩ := t.calls d hd
    exact ⟨hcarries, by rw [backend]; exact hserved⟩

/-- The runtime moves on outside of handlers. -/
theorem of_pc (t : Tracked own s bs q) {pc : Pc} (outside : s.pc.serving = none)
    (outside' : pc.serving = none) : Tracked own { s with pc := pc } bs q := by
  have behind : ∀ pc : Pc, pc.serving = none → ∀ p l, pc.behind p l = l := by
    intro pc h p l
    cases pc with
    | handling call => cases h
    | _ => rfl
  refine ⟨t.ready, t.slots, t.ownSlots, fun p => ?_, fun call h => ?_, t.history, t.calls⟩
  · have := t.tags p
    rw [behind _ outside] at this
    show List.Forall₂ _ (pc.behind p (q p)) _
    rw [behind _ outside']
    exact this
  · change pc = .handling call at h
    rw [h] at outside'
    cases outside'

/-- The history that only grows does not matter to the queues. -/
theorem of_refused (t : Tracked own s bs q) (refused : List Request)
    (completions : List Completion) :
    Tracked own { s with refused := refused, completions := completions } bs q :=
  ⟨t.ready, t.slots, t.ownSlots, t.tags, t.handling, t.history, t.calls⟩

/-- The native service changed. -/
theorem of_service (t : Tracked own s bs q) {service : Service} (history : service.Consistent) :
    Tracked own (s.setService service) bs q :=
  t.of_bus rfl rfl rfl rfl t.slots t.ownSlots history

/-! ## Posts -/

/-- A post that was refused leaves everything in place. -/
theorem refused (t : Tracked own s bs q) {args : PostArgs} {bus : Bus Task Service} {e : Errno}
    (h : Posted s.bus bs q args bus (.err e)) : Tracked own { s with bus := bus } bs q := by
  obtain ⟨same, ⟨_, _, _, r⟩ | ⟨_, _, _, _, hok, _⟩⟩ := h
  · refine ⟨r, ?_, ?_, t.tags, fun call h => ?_, ?_, fun d hd => ?_⟩
    · unfold SlotsFit
      rw [same.delayed]
      exact t.slots
    · dsimp only
      rw [same.delayed]
      exact t.ownSlots
    · dsimp only
      rw [same.backend]
      exact t.handling call h
    · dsimp only
      rw [same.rest]
      exact t.history
    · dsimp only
      rw [same.backend]
      exact t.calls d hd
  · cases hok

/-- What is appended to a queue waits. -/
theorem behind_append (t : Tracked own s bs q) (p : Nat) (l : List Node) :
    s.pc.behind p (q p ++ l) = s.pc.behind p (q p) ++ l := by
  cases hpc : s.pc with
  | handling call =>
    obtain ⟨⟨rest, hrest⟩, _⟩ := t.handling call hpc
    unfold Pc.behind
    dsimp only
    split
    · rename_i hprio
      rw [← hprio, hrest]
      rfl
    · rfl
  | _ => rfl

/-- A post that was taken puts a tagged event at the end of a queue. -/
theorem taken (t : Tracked own s bs q) {args : PostArgs} {bus : Bus Task Service}
    (h : Posted s.bus bs q args bus .ok) {tag : Option Request} (carries : Carries own args.ctx tag) :
    ∃ bs' q' p, p < taskPriorityNumber ∧
      s.push args.taskId tag = Function.update s.tags p (s.tags p ++ [tag]) ∧
      Tracked own { s with bus := bus, tags := s.push args.taskId tag } bs' q' := by
  obtain ⟨same, ⟨_, ⟨e, he⟩, _⟩ | ⟨bs', entry, addr, _, _, hfind, r⟩⟩ := h
  · cases he
  · have hpush : s.push args.taskId tag = Function.update s.tags entry.priority.toNat
        (s.tags entry.priority.toNat ++ [tag]) := by
      unfold System.push
      rw [hfind]
    obtain ⟨_, hprio, _⟩ := t.ready.registry.found _ _ hfind
    refine ⟨bs', _, entry.priority.toNat, hprio, hpush, r, ?_, ?_, fun p => ?_, fun call hcall => ?_,
      ?_, fun d hd => ?_⟩
    · unfold SlotsFit
      rw [same.delayed]
      exact t.slots
    · dsimp only
      rw [same.delayed]
      exact t.ownSlots
    · rw [hpush]
      dsimp only
      by_cases hp : p = entry.priority.toNat
      · subst hp
        rw [Function.update_self, Function.update_self]
        rw [t.behind_append]
        exact List.rel_append (t.tags _) (.cons carries .nil)
      · rw [Function.update_of_ne hp, Function.update_of_ne hp]
        exact t.tags p
    · obtain ⟨⟨rest, hrest⟩, hcarries, hserved⟩ := t.handling call hcall
      refine ⟨?_, hcarries, by dsimp only; rw [same.backend]; exact hserved⟩
      by_cases hp : call.priority = entry.priority.toNat
      · rw [hp, Function.update_self]
        rw [hp] at hrest
        exact ⟨rest ++ [⟨addr, args.ctx⟩], by rw [hrest]; rfl⟩
      · rw [Function.update_of_ne hp]
        exact ⟨rest, hrest⟩
    · dsimp only
      rw [same.rest]
      exact t.history
    · dsimp only
      rw [same.backend]
      exact t.calls d hd

end Tracked

/-! ## The steps -/

/-- What is known of the events of a run: the runtime's own posts have block sizes that do not wrap
`size_t`, and contexts of its own. -/
def Event.Allowed (own : Ctx → Prop) : Event → Prop
  | .post args => args.Fits ∧ own args.ctx
  | .postDelay args _ => args.Fits ∧ own args.ctx
  | _ => True

/-- What a step does: the invariant stays, and the history takes at most one step of the courier. -/
def Advances (own : Ctx → Prop) (R : Courier.Rules Request) (s s' : System) : Prop :=
  (∃ bs q, Tracked own s' bs q) ∧ s'.bus.backend = s.bus.backend ∧
    (s'.view = s.view ∨ Courier.Step taskPriorityNumber R s.view s'.view)

variable {R : Courier.Rules Request} {s' : System}

/-- The application posts. -/
theorem Tracked.appPost (t : Tracked own s bs q) (eras : R.eraOf = Request.era) {args : PostArgs}
    (h : s.appPost args = some s') : Advances own R s s' := by
  unfold System.appPost at h
  split at h
  · rename_i running
    obtain rfl := Option.some.inj h
    have same : Advances own R s { s with bus := s.bus } := ⟨⟨bs, q, t⟩, rfl, .inl rfl⟩
    unfold nativeApiRtbusPost
    split
    · rename_i small
      split
      · exact same
      · split
        · exact same
        · let request : Request := ⟨postMsg args small, s.bus.rest.accepted.length, s.bus.rest.era⟩
          refine ⟨⟨bs, q, t.of_bus rfl rfl rfl rfl t.slots t.ownSlots fun r hr => ?_⟩, rfl, .inr ?_⟩
          · change r ∈ s.bus.rest.accepted ++ [request] at hr
            show r.number < (s.bus.rest.accepted ++ [request]).length ∧ r.era ≤ s.bus.rest.era ∧
              (r.era = s.bus.rest.era → s.bus.rest.threadId = true)
            rw [List.length_append]
            rcases List.mem_append.mp hr with hr | hr
            · obtain ⟨hnumber, hera⟩ := t.history r hr
              exact ⟨Nat.lt_of_lt_of_le hnumber (Nat.le_add_right _ _), hera⟩
            · rw [List.mem_singleton.mp hr]
              exact ⟨Nat.lt_succ_self _, Nat.le_refl _, fun _ => running⟩
          · refine .accept request (fun hmem => ?_) (by rw [eras]; rfl)
            exact absurd (t.history request hmem).1 (Nat.lt_irrefl _)
    · exact same
  · cases h

/-- The runtime posts. -/
theorem Tracked.post (t : Tracked own s bs q) {args : PostArgs} (fits : args.Fits)
    (owned : own args.ctx) (h : s.post args = some s') : Advances own R s s' := by
  obtain ⟨bus, ret, hres, posted⟩ := rtbusPost_spec t.ready args fits
  unfold System.post at h
  rw [hres] at h
  obtain ⟨same, _⟩ := id posted
  cases ret with
  | err e =>
    obtain rfl := Option.some.inj h
    refine ⟨⟨bs, q, t.refused posted⟩, same.backend, .inl ?_⟩
    unfold System.view
    dsimp only
    rw [same.rest]
  | ok =>
    obtain rfl := Option.some.inj h
    obtain ⟨bs', q', p, hp, hpush, t'⟩ := t.taken posted (show Carries own args.ctx none from owned)
    refine ⟨⟨bs', q', t'⟩, same.backend, .inr ?_⟩
    have := Courier.Step.push (R := R) (c := s.view) p hp
    unfold System.view at this ⊢
    dsimp only at this ⊢
    rw [same.rest, hpush]
    exact this

/-- The runtime posts with a delay. -/
theorem Tracked.postDelay (t : Tracked own s bs q) {args : PostArgs} {delayMs : UInt32}
    (fits : args.Fits) (owned : own args.ctx) (h : s.postDelay cfg args delayMs = some s') :
    Advances own R s s' := by
  unfold System.postDelay at h
  split at h
  · exact t.post fits owned h
  · rename_i hdelay
    unfold rtbusPostDelay at h
    rw [if_neg hdelay] at h
    have same : Advances own R s { s with bus := s.bus } := ⟨⟨bs, q, t⟩, rfl, .inl rfl⟩
    split at h
    · rename_i hres
      split at hres <;> try (split at hres) <;> try (split at hres)
      all_goals cases hres
    · rename_i bus ret hres
      obtain rfl := Option.some.inj h
      split at hres
      · cases hres
        exact same
      · rename_i given
        split at hres
        · cases hres
          exact same
        · split at hres
          · cases hres
            exact same
          · cases hres
            refine ⟨⟨bs, q, t.of_bus rfl rfl rfl rfl ?_ ?_ t.history⟩, rfl, .inl rfl⟩
            · intro event hevent
              rcases List.mem_or_eq_of_mem_set hevent with hevent | rfl
              · exact t.slots event hevent
              · exact fits
            · intro event hevent used
              rcases List.mem_or_eq_of_mem_set hevent with hevent | rfl
              · exact t.ownSlots event hevent used
              · rw [delayedEvent_ctx]
                exact owned

/-- The runtime moves on outside of handlers, and nothing else happens. -/
theorem Tracked.advance_pc (t : Tracked own s bs q) {pc : Pc} (outside : s.pc.serving = none)
    (outside' : pc.serving = none) : Advances own R s { s with pc := pc } := by
  refine ⟨⟨bs, q, t.of_pc outside outside'⟩, rfl, .inl ?_⟩
  unfold System.view
  rw [outside, outside']

/-- One turn of the loop over the delayed events. -/
theorem Tracked.move (t : Tracked own s bs q) (h : s.move = some s') : Advances own R s s' := by
  unfold System.move at h
  split at h
  · rename_i nowMs i hpc
    have outside : s.pc.serving = none := by rw [hpc]; rfl
    split at h
    · obtain rfl := Option.some.inj h
      refine t.advance_pc outside ?_
      split
      · rfl
      · rfl
    · rename_i event hevent
      have hmem : event ∈ s.bus.delayed := List.mem_of_getElem? hevent
      split at h
      · obtain rfl := Option.some.inj h
        exact t.advance_pc outside rfl
      · rename_i hdue
        have hused : event.used = true := by
          cases hu : event.used with
          | true => rfl
          | false => exact absurd (.inl hu) hdue
        obtain ⟨bus, ret, hres, posted⟩ := emosPost_spec t.ready event.args (t.slots event hmem)
        rw [hres] at h
        obtain ⟨same, _⟩ := id posted
        cases ret with
        | err e =>
          obtain rfl := Option.some.inj h
          refine ⟨⟨bs, q, (t.refused posted).of_pc outside rfl⟩, same.backend, .inl ?_⟩
          unfold System.view
          dsimp only
          rw [same.rest, outside]
          rfl
        | ok =>
          obtain rfl := Option.some.inj h
          obtain ⟨bs', q', p, hp, hpush, t'⟩ :=
            t.taken posted (show Carries own event.args.ctx none from t.ownSlots event hmem hused)
          have hcleared : ∀ e ∈ bus.delayed.set i DelayedEvent.zero,
              e ∈ bus.delayed ∨ e = DelayedEvent.zero := fun e he => List.mem_or_eq_of_mem_set he
          have t₁ : Tracked own { s with
              bus := { bus with delayed := bus.delayed.set i DelayedEvent.zero }
              tags := s.push event.taskId none } bs' q' := by
            refine t'.of_bus rfl rfl rfl rfl (fun e he => ?_) (fun e he used => ?_) t'.history
            · rcases hcleared e he with he | rfl
              · exact t'.slots e he
              · decide
            · rcases hcleared e he with he | rfl
              · exact t'.ownSlots e he used
              · cases used
          refine ⟨⟨bs', q', t₁.of_pc outside rfl⟩, same.backend, .inr ?_⟩
          have := Courier.Step.push (R := R) (c := s.view) p hp
          unfold System.view at this ⊢
          dsimp only at this ⊢
          rw [outside] at this
          rw [same.rest, show s.push event.taskId none = _ from hpush, outside]
          exact this
  · cases h

/-- One turn of the loop over the messages of the application. -/
theorem Tracked.drain (t : Tracked own s bs q)
    (refusal : ∀ r rest, s.pc = .draining → s.bus.rest.postMsgq = r :: rest →
      accepts s.bus bs r.msg.args = none → R.mayRefuse r)
    (h : s.drain = some s') : Advances own R s s' := by
  unfold System.drain at h
  split at h
  · rename_i hpc
    have outside : s.pc.serving = none := by rw [hpc]; rfl
    split at h
    · obtain rfl := Option.some.inj h
      exact t.advance_pc outside rfl
    · rename_i r rest hmsgq
      have t₀ : Tracked own (s.setService { s.bus.rest with postMsgq := rest }) bs q :=
        t.of_service t.history
      obtain ⟨bus, ret, hres, posted⟩ := rtbusPost_spec t₀.ready r.msg.args r.msg.args_fits
      rw [hres] at h
      obtain ⟨same, hcase⟩ := id posted
      cases ret with
      | err e =>
        obtain rfl := Option.some.inj h
        refine ⟨⟨bs, q, ((t₀.refused posted).of_pc outside rfl).of_refused _ _⟩, same.backend,
          .inr ?_⟩
        have hnone : accepts s.bus bs r.msg.args = none := by
          rcases hcase with ⟨hnone, _⟩ | ⟨_, _, _, _, hok, _⟩
          · exact hnone
          · cases hok
        have := Courier.Step.refuse (N := taskPriorityNumber) (R := R) (c := s.view) r rest hmsgq
          (refusal r rest hpc hmsgq hnone)
        unfold System.view at this ⊢
        dsimp only at this ⊢
        rw [outside] at this
        rw [same.rest, outside]
        exact this
      | ok =>
        obtain rfl := Option.some.inj h
        obtain ⟨bs', q', p, hp, hpush, t'⟩ :=
          t₀.taken posted (show Carries own r.msg.args.ctx (some r) from r.msg.args_ctx)
        refine ⟨⟨bs', q', t'⟩, same.backend, .inr ?_⟩
        have := Courier.Step.take (R := R) (c := s.view) r rest p hp hmsgq
        unfold System.view at this ⊢
        dsimp only at this ⊢
        rw [same.rest, show s.push r.msg.taskId (some r) = _ from hpush]
        exact this
  · cases h

/-- The first queue that is not empty. -/
theorem firstQueue_some {H X : Type} {b : Bus H X} {bs : List Block} {q : Nat → List Node}
    (r : Ready b bs q) {p : Nat} (h : firstQueue b = some p) :
    p < taskPriorityNumber ∧ ∃ n rest, q p = n :: rest := by
  refine ⟨List.mem_range.mp (List.mem_of_find?_eq_some h), List.exists_cons_of_ne_nil ?_⟩
  have hne := List.find?_some h
  rw [decide_eq_true_eq, Ne, r.queued.head_eq_zero_iff] at hne
  exact hne

/-- An event is chosen, and its handler called. -/
theorem Tracked.dispatch (t : Tracked own s bs q) (h : s.dispatch = some s') :
    Advances own R s s' := by
  unfold System.dispatch at h
  split at h
  · rename_i hpc
    have outside : s.pc.serving = none := by rw [hpc]; rfl
    cases hfirst : firstQueue s.bus with
    | none =>
      rw [hfirst] at h
      dsimp only at h
      split at h
      · obtain rfl := Option.some.inj h
        exact t.advance_pc outside rfl
      · obtain rfl := Option.some.inj h
        exact t.advance_pc outside rfl
    | some p =>
      obtain ⟨hp, n, rest, hq⟩ := firstQueue_some t.ready hfirst
      have haddr := t.ready.queued.head_eq hq
      have hctx : readCtx s.bus.heap.mem n.addr = n.ctx :=
        (t.ready.queued.held p n (by rw [hq]; exact List.mem_cons_self ..)).readCtx_eq
      obtain ⟨entry, hfind, _⟩ := t.ready.tasks p n (by rw [hq]; exact List.mem_cons_self ..)
      obtain ⟨_, _, task, htask⟩ := t.ready.registry.found _ _ hfind
      have htags := t.tags p
      rw [hq, hpc] at htags
      cases hs : s.tags p with
      | nil =>
        rw [hs] at htags
        cases htags
      | cons tag tags =>
        rw [hs] at htags
        obtain ⟨hcarries, hrest⟩ := List.forall₂_cons.mp htags
        rw [hfirst] at h
        simp only [haddr, hctx, hfind, htask] at h
        obtain rfl := Option.some.inj h
        have hpop : s.pop p = Function.update s.tags p tags := by
          unfold System.pop
          rw [hs]
          rfl
        have hserved : ServedBy s.bus.backend n.ctx task := ⟨entry, hfind, htask⟩
        rw [hs, hpop]
        refine ⟨⟨bs, q, t.ready, t.slots, t.ownSlots, fun p' => ?_, fun call hcall => ?_,
          t.history, fun d hd => ?_⟩, rfl, .inr ?_⟩
        · dsimp only [Pc.behind]
          by_cases hp' : p' = p
          · subst hp'
            rw [if_pos rfl, hq, Function.update_self]
            exact hrest
          · rw [if_neg fun h => hp' h.symm, Function.update_of_ne hp']
            have := t.tags p'
            rw [hpc] at this
            exact this
        · cases hcall
          exact ⟨⟨rest, hq⟩, hcarries, hserved⟩
        · rcases List.mem_append.mp hd with hd | hd
          · exact t.calls d hd
          · rw [List.mem_singleton.mp hd]
            exact ⟨hcarries, hserved⟩
        · have := Courier.Step.serve (R := R) (c := s.view) tag tags p hp hs
          unfold System.view at this ⊢
          dsimp only at this ⊢
          rw [List.map_append]
          exact this
  · cases h

/-- A completion does not touch the messages and the thread. -/
theorem completeResult_keeps (cfg : Config) (addr result : UInt32) (v : Service) :
    (nativeServiceCompleteResult cfg addr result v).1.accepted = v.accepted ∧
      (nativeServiceCompleteResult cfg addr result v).1.postMsgq = v.postMsgq ∧
      (nativeServiceCompleteResult cfg addr result v).1.era = v.era ∧
      (nativeServiceCompleteResult cfg addr result v).1.threadId = v.threadId := by
  unfold nativeServiceCompleteResult
  split
  · exact ⟨rfl, rfl, rfl, rfl⟩
  · split
    · exact ⟨rfl, rfl, rfl, rfl⟩
    · exact ⟨rfl, rfl, rfl, rfl⟩

/-- The handler of a request completes it. -/
theorem Tracked.complete (t : Tracked own s bs q)
    (completes : R.completes = fun tag => ∃ ctx, Carries own ctx tag ∧
      CtxCompletes cfg s.bus.backend ctx) {result : UInt32}
    (h : s.complete cfg result = some s') : Advances own R s s' := by
  unfold System.complete at h
  split at h
  · rename_i call hpc
    split at h
    · rename_i addr _ haddr
      obtain rfl := Option.some.inj h
      obtain ⟨hq, hcarries, hserved⟩ := t.handling call hpc
      obtain ⟨hacc, hmsgq, hera, hthread⟩ := completeResult_keeps cfg addr result s.bus.rest
      have t₁ : Tracked own
          (s.setService (nativeServiceCompleteResult cfg addr result s.bus.rest).1) bs q := by
        refine t.of_service ?_
        unfold Service.Consistent
        rw [hacc, hera, hthread]
        exact t.history
      refine ⟨⟨bs, q, t₁.ready, t₁.slots, t₁.ownSlots, fun p => ?_, fun call' hcall' => ?_,
        t₁.history, t₁.calls⟩, rfl, ?_⟩
      · have := t.tags p
        rw [hpc] at this
        exact this
      · cases hcall'
        exact ⟨hq, hcarries, hserved⟩
      · unfold System.view System.setService
        dsimp only
        rw [hacc, hmsgq, hera, hpc]
        split
        · rename_i hvalid
          right
          have := Courier.Step.complete (N := taskPriorityNumber) (R := R) (c := s.view)
            call.request (by
              show s.pc.serving = _
              rw [hpc]
              rfl) (by
              rw [completes]
              exact ⟨call.ctx, hcarries, call.task, hserved, addr, haddr, hvalid⟩)
          unfold System.view at this
          rw [hpc] at this
          rw [List.map_append]
          exact this
        · exact .inl rfl
    · cases h
  · cases h

/-- What stopping and starting do to the messages: nothing, and a thread that exists stays; or all
are purged and an era ends. -/
def Stops (v v' : Service) : Prop :=
  v'.accepted = v.accepted ∧
    ((v'.postMsgq = v.postMsgq ∧ v'.era = v.era ∧ (v.threadId = true → v'.threadId = true)) ∨
      (v'.postMsgq = [] ∧ v.era < v'.era))

theorem Stops.refl (v : Service) : Stops v v := ⟨rfl, .inl ⟨rfl, rfl, id⟩⟩

theorem Stops.consistent {v v' : Service} (h : Stops v v') (c : v.Consistent) : v'.Consistent := by
  obtain ⟨hacc, hcase⟩ := h
  intro r hr
  rw [hacc] at hr ⊢
  obtain ⟨hnumber, hle, hthread⟩ := c r hr
  refine ⟨hnumber, ?_⟩
  rcases hcase with ⟨_, hera, hkept⟩ | ⟨_, hera⟩
  · rw [hera]
    exact ⟨hle, fun h => hkept (hthread h)⟩
  · exact ⟨by omega, fun h => absurd h (by omega)⟩

theorem start_stops (loaded : Loaded) (v : Service) :
    Stops v (nativeServiceStart loaded v).1 := by
  rcases start_cases loaded v with h | ⟨_, _, ⟨e, h⟩ | h⟩ <;> rw [h]
  · exact .refl v
  · exact ⟨rfl, .inr ⟨rfl, Nat.lt_succ_self _⟩⟩
  · exact ⟨rfl, .inl ⟨rfl, rfl, fun _ => rfl⟩⟩

theorem resume_stops (loaded : Loaded) (v : Service) :
    Stops v (nativeServiceResumeAfterUpgrade loaded v) := by
  obtain ⟨hacc, hcase⟩ := start_stops loaded
    (nativeServiceForceStopThread { v with patchHandoff := false, apiBusy := 0 })
  refine ⟨hacc, .inr ?_⟩
  rcases hcase with ⟨hmsgq, hera, _⟩ | ⟨hmsgq, hera⟩
  · exact ⟨hmsgq, Nat.lt_of_lt_of_eq (Nat.lt_succ_self _) hera.symm⟩
  · exact ⟨hmsgq, Nat.lt_trans (Nat.lt_succ_self _) hera⟩

theorem handoff_stops (turns : List (Nat × Bool)) {v : Service} {done : Service × Ret}
    (h : nativeServiceHandoffRamForPatch turns v = some done) : Stops v done.1 := by
  rcases handoff_cases h with ⟨_, rfl⟩ | ⟨_, rfl | rfl⟩
  · exact ⟨rfl, .inl ⟨rfl, rfl, id⟩⟩
  · exact ⟨rfl, .inr ⟨rfl, Nat.lt_succ_self _⟩⟩
  · exact ⟨rfl, .inl ⟨rfl, rfl, id⟩⟩

/-- The native service stops or starts the application. -/
theorem Tracked.stops (t : Tracked own s bs q) {v : Service} (h : Stops s.bus.rest v)
    (may : v.era ≠ s.bus.rest.era → R.mayStop s.view) : Advances own R s (s.setService v) := by
  have consistent := h.consistent t.history
  obtain ⟨hacc, hcase⟩ := h
  refine ⟨⟨bs, q, t.of_service consistent⟩, rfl, ?_⟩
  rcases hcase with ⟨hmsgq, hera, _⟩ | ⟨hmsgq, hera⟩
  · left
    unfold System.view System.setService
    dsimp only
    rw [hacc, hmsgq, hera]
  · right
    have := Courier.Step.stop (N := taskPriorityNumber) v.era (may (Nat.ne_of_gt hera))
    unfold System.view at this ⊢
    unfold System.setService
    dsimp only at this ⊢
    rw [hacc, hmsgq]
    exact this

/-- A handler returns. -/
theorem Tracked.finish (t : Tracked own s bs q) (h : s.finish = some s') : Advances own R s s' := by
  unfold System.finish at h
  split at h
  · rename_i call hpc
    obtain ⟨⟨rest, hq⟩, _, _⟩ := t.handling call hpc
    obtain ⟨bus, bs', hres, same, r⟩ := removeNode_spec t.ready hq
    rw [show removeNode s.bus call.priority call.node = some bus from hres] at h
    obtain rfl := Option.some.inj h
    refine ⟨⟨bs', _, r, ?_, ?_, fun p => ?_, fun _ h => (by cases h), ?_,
      fun d hd => ?_⟩, same.backend, .inr ?_⟩
    · unfold SlotsFit
      rw [same.delayed]
      exact t.slots
    · dsimp only
      rw [same.delayed]
      exact t.ownSlots
    · have := t.tags p
      rw [hpc] at this
      show List.Forall₂ _ (Function.update q call.priority rest p) _
      by_cases hp : p = call.priority
      · subst hp
        rw [Function.update_self]
        simp only [Pc.behind, hq] at this
        exact this
      · rw [Function.update_of_ne hp]
        simp only [Pc.behind, if_neg (Ne.symm hp)] at this
        exact this
    · dsimp only
      rw [same.rest]
      exact t.history
    · dsimp only
      rw [same.backend]
      exact t.calls d hd
    · have := Courier.Step.finish (N := taskPriorityNumber) (R := R) (c := s.view)
      unfold System.view at this ⊢
      dsimp only at this ⊢
      rw [same.rest]
      exact this
  · rename_i index task hpc
    obtain rfl := Option.some.inj h
    have outside : s.pc.serving = none := by rw [hpc]; rfl
    have t₁ : Tracked own { s with
        bus := { s.bus with pollNextIndex := (index + 1) % s.bus.entryCount } } bs q :=
      t.of_bus rfl rfl rfl rfl t.slots t.ownSlots t.history
    refine ⟨⟨bs, q, t₁.of_pc outside rfl⟩, rfl, .inl ?_⟩
    unfold System.view
    rw [outside]
    rfl
  · cases h

/-- The command line completes no request. -/
theorem cli_resultAddr {task : Task} (h : task = .cli) (ctx : Ctx) :
    task.resultAddr cfg ctx = none := by
  subst h
  exact if_neg (by simp [Task.requestSize])

/-- An `INIT` event asks for no result. -/
theorem init_resultAddr (task : Task) {ctx : Ctx} (h : ctx.id = sysEvt sysInit) :
    task.resultAddr cfg ctx = none := by
  have hne : List.Forall (fun n => sysEvt sysInit ≠ applicationAppEvt n) [1, 2, 3, 4, 5, 6] := by
    decide
  have hne := List.forall_iff_forall_mem.mp hne
  unfold Task.resultAddr
  rw [h]
  cases task <;> simp [Task.requestSize, hne]

/-- Every step keeps the invariant and takes at most one step of the courier. -/
theorem step_refines (mayRefuse : Request → Prop) (mayStop : Courier Request → Prop)
    (t : Tracked own s bs q) {e : Event} (allowed : e.Allowed own)
    (refusal : ∀ r rest, e = .drain → s.bus.rest.postMsgq = r :: rest →
      accepts s.bus bs r.msg.args = none → mayRefuse r)
    (stop : ∀ call, s.pc = .handling call → call.task.resultAddr cfg call.ctx = none →
      s'.bus.rest.era ≠ s.bus.rest.era → mayStop s.view) (h : System.step cfg e s = some s') :
    Advances own (rules cfg s.bus.backend own mayRefuse mayStop) s s' := by
  cases e with
  | appPost args => exact t.appPost rfl h
  | post args => exact t.post allowed.1 allowed.2 h
  | postDelay args delayMs => exact t.postDelay allowed.1 allowed.2 h
  | advance ms =>
    cases h
    exact ⟨⟨bs, q, t.of_bus rfl rfl rfl rfl t.slots t.ownSlots t.history⟩, rfl, .inl rfl⟩
  | process =>
    change s.process = some s' at h
    unfold System.process at h
    split at h
    · rename_i hpc
      obtain rfl := Option.some.inj h
      exact t.advance_pc (by rw [hpc]; rfl) rfl
    · cases h
  | move => exact t.move h
  | drain => exact t.drain (fun r rest _ hmsgq hnone => refusal r rest rfl hmsgq hnone) h
  | dispatch => exact t.dispatch h
  | complete result => exact t.complete rfl h
  | handoff turns =>
    change s.handoff turns = some s' at h
    unfold System.handoff at h
    split at h
    · rename_i call hpc
      split at h
      · rename_i hcli
        obtain ⟨done, hdone, rfl⟩ := Option.map_eq_some_iff.mp h
        exact t.stops (handoff_stops turns hdone) (stop call hpc (cli_resultAddr hcli _))
      · cases h
    · cases h
  | resume loaded =>
    change s.resume loaded = some s' at h
    unfold System.resume at h
    split at h
    · rename_i call hpc
      split at h
      · rename_i hcli
        obtain rfl := Option.some.inj h
        exact t.stops (resume_stops loaded _) (stop call hpc (cli_resultAddr hcli.1 _))
      · cases h
    · cases h
  | start loaded =>
    change s.start loaded = some s' at h
    unfold System.start at h
    split at h
    · rename_i call hpc
      split at h
      · rename_i hinit
        obtain rfl := Option.some.inj h
        exact t.stops (start_stops loaded _) (stop call hpc (init_resultAddr _ hinit.2))
      · cases h
    · cases h
  | finish => exact t.finish h

/-! ## Runs -/

/-- A sequence of events whose steps all pass a check. -/
def System.checkedRun (check : System → Event → System → Bool) (cfg : Config) :
    List Event → System → Option System
  | [], s => some s
  | e :: es, s =>
    match System.step cfg e s with
    | none => none
    | some s' => if check s e s' then checkedRun check cfg es s' else none

/-- What such a sequence leads to is reachable, if steps that pass the check are ones of the run. -/
theorem reachable_checkedRun {check : System → Event → System → Bool} {start : System → Prop}
    {step : System → Event → System → Prop}
    (steps : ∀ s e s', Run.Reachable start step s → System.step cfg e s = some s' →
      check s e s' = true → step s e s') {es : List Event} {s s' : System}
    (h : Run.Reachable start step s) (run : s.checkedRun check cfg es = some s') :
    Run.Reachable start step s' := by
  induction es generalizing s with
  | nil =>
    cases run
    exact h
  | cons e es ih =>
    unfold System.checkedRun at run
    split at run
    · cases run
    · rename_i s₁ hstep
      split at run
      · rename_i hcheck
        exact ih (h.step (steps s e s₁ h hstep hcheck)) run
      · cases run

/-! ## The start -/

/-- A system after a successful `rtbus_init` on a pool in the address space, with the statics of the
native service as after boot. The queued events are the `INIT` events. -/
def System.Start (s : System) : Prop :=
  ∃ (b : Bus Task Service) (poolAddr poolSize : Nat) (entryTbl : Option (EntryTable Task)),
    poolAddr + poolSize ≤ 2 ^ 32 ∧ b.rest = Service.boot ∧
      rtbusInit b poolAddr poolSize entryTbl = some (s.bus, .ok) ∧
      s = { bus := s.bus, pc := .idle, calls := [], refused := [], completions := []
            tags := fun p =>
              ((Fifo.initial s.bus.backend s.bus.entryCount).pending p).map fun _ => none }

/-- The invariant holds at the start, if `INIT` contexts are the runtime's own. -/
theorem System.Start.tracked (start : s.Start)
    (init : ∀ entry : Entry Task, own (initArgs entry).ctx) : ∃ bs q, Tracked own s bs q := by
  obtain ⟨b, poolAddr, poolSize, entryTbl, range, hboot, hinit, hs⟩ := start
  obtain ⟨⟨bs, q, r, t⟩, zero, hrest⟩ := rtbusInit_tracks range hinit
  rw [hboot] at hrest
  have hcalls : s.calls = [] := by rw [hs]
  have hpc : s.pc = .idle := by rw [hs]
  refine ⟨bs, q, r, fun event hevent => ?_, fun event hevent used => ?_, fun p => ?_,
    fun call hcall => ?_, fun x hx => ?_, fun d hd => ?_⟩
  · rw [zero event hevent]
    decide
  · rw [zero event hevent] at used
    cases used
  · have htags : s.tags p =
        ((Fifo.initial s.bus.backend s.bus.entryCount).pending p).map fun _ => none := by rw [hs]
    have hall : ∀ x ∈ (Fifo.initial s.bus.backend s.bus.entryCount).pending p, own x.2 := by
      rintro ⟨ticket, ctx⟩ hx
      obtain ⟨hacc, _⟩ := Fifo.mem_pending.mp hx
      obtain ⟨entry, rfl⟩ := Fifo.initial_accepted _ _ _ (List.mem_of_getElem? hacc)
      exact init entry
    rw [htags, hpc]
    show List.Forall₂ _ (q p) _
    have hctx := t.pending p
    generalize (Fifo.initial s.bus.backend s.bus.entryCount).pending p = pend at hctx hall ⊢
    generalize q p = nodes at hctx ⊢
    induction nodes generalizing pend with
    | nil =>
      rw [List.map_eq_nil_iff.mp hctx.symm]
      exact .nil
    | cons n nodes ih =>
      cases pend with
      | nil => cases hctx
      | cons x pend =>
        obtain ⟨h1, h2⟩ := List.cons.inj hctx
        refine .cons ?_ (ih pend (fun y hy => hall y (List.mem_cons_of_mem _ hy)) h2)
        show own n.ctx
        rw [h1]
        exact hall x (List.mem_cons_self ..)
  · rw [hpc] at hcall
    cases hcall
  · rw [hrest] at hx
    cases hx
  · rw [hcalls] at hd
    cases hd

/-- Nothing has happened at the start. -/
theorem System.Start.view (start : s.Start) :
    s.view.accepted = [] ∧ s.view.waiting = [] ∧ (∀ p, ∀ tag ∈ s.view.queued p, tag = none) ∧
      s.view.served = [] ∧ s.view.serving = none ∧ s.view.refused = [] ∧
      s.view.completions = [] := by
  obtain ⟨b, poolAddr, poolSize, entryTbl, range, hboot, hinit, hs⟩ := start
  obtain ⟨_, _, hrest⟩ := rtbusInit_tracks range hinit
  rw [hboot] at hrest
  rw [hs]
  refine ⟨?_, ?_, fun p tag htag => ?_, rfl, rfl, rfl, rfl⟩
  · show s.bus.rest.accepted = []
    rw [hrest]
    rfl
  · show s.bus.rest.postMsgq = []
    rw [hrest]
    rfl
  · obtain ⟨_, _, rfl⟩ := List.mem_map.mp htag
    rfl

end Rtbus.Native
