import Rtbus.Native.Loop

/-!
# The runtime thread sleeps

Every event that is queued gives the semaphore, but the semaphore counts to one, and one call of
`rtbus_process` dispatches one event. So the thread may find the semaphore taken and block with an
event queued, if there was more than one when it chose.

`Settled` is what holds from the choice on: if nothing was left over and the semaphore has not been
given since, nothing is queued.
-/

namespace Rtbus.Native

open Rtbus.Emos Rtbus.Pool

/-! ## What posts and the other steps do to the semaphore -/

/-- A signal leaves the semaphore at its limit, which is one. -/
theorem eventSignal_sem {H X : Type} (s : Bus H X) : (eventSignal s).eventSem = 1 :=
  Nat.min_eq_right (Nat.succ_le_succ (Nat.zero_le _))

/-- A post gives the semaphore, or it fails and leaves it. -/
theorem emosPost_sem {H X : Type} {s s' : Bus H X} {args : PostArgs} {ret : Ret}
    (h : emosPost s args = some (s', ret)) :
    s'.rest = s.rest ∧ (s'.eventSem = 1 ∨ (ret ≠ .ok ∧ s'.eventSem = s.eventSem)) := by
  unfold emosPost at h
  split at h
  · cases h
    exact ⟨rfl, .inr ⟨nofun, rfl⟩⟩
  · split at h
    · cases h
      exact ⟨rfl, .inr ⟨nofun, rfl⟩⟩
    · split at h
      · cases h
        exact ⟨rfl, .inr ⟨nofun, rfl⟩⟩
      · split at h
        · cases h
          exact ⟨rfl, .inr ⟨nofun, rfl⟩⟩
        · dsimp only at h
          split at h
          · cases h
            exact ⟨rfl, .inr ⟨nofun, rfl⟩⟩
          · split at h
            · cases h
            · split at h <;> cases h
              · exact ⟨rfl, .inr ⟨nofun, rfl⟩⟩
              · exact ⟨rfl, .inl (eventSignal_sem _)⟩

/-- A post that succeeds has signalled, and one that fails may have left the semaphore alone. -/
theorem rtbusPost_sem {H X : Type} {s s' : Bus H X} {args : PostArgs} {ret : Ret}
    (h : rtbusPost s args = some (s', ret)) :
    s'.rest = s.rest ∧ (s'.eventSem = 1 ∨ (ret ≠ .ok ∧ s'.eventSem = s.eventSem)) := by
  unfold rtbusPost at h
  split at h
  · cases h
  · rename_i hpost
    cases h
    obtain ⟨hrest, hsem⟩ := emosPost_sem hpost
    exact ⟨hrest, hsem.imp_right fun h => ⟨nofun, h.2⟩⟩
  · rename_i hpost
    cases h
    exact emosPost_sem hpost

/-- A step that queues nothing, or gives the semaphore. -/
def Keeps (s s' : System) : Prop :=
  s'.bus.eventSem = 1 ∨ (s'.bus.eventSem = s.bus.eventSem ∧ s'.tags = s.tags ∧
    (s'.bus.rest.postMsgq = s.bus.rest.postMsgq ∨ s'.bus.rest.postMsgq = []))

/-- A step that leaves semaphore, queues and messages alone. -/
theorem Keeps.of_same {s s' : System} (sem : s'.bus.eventSem = s.bus.eventSem)
    (tags : s'.tags = s.tags) (msgq : s'.bus.rest.postMsgq = s.bus.rest.postMsgq) : Keeps s s' :=
  .inr ⟨sem, tags, .inl msgq⟩

variable {cfg : Config} {s s' : System}

/-- A request of the application signals behind putting its message. -/
theorem appPost_keeps {args : PostArgs} (h : s.appPost args = some s') : Keeps s s' := by
  unfold System.appPost at h
  split at h
  · cases h
    unfold nativeApiRtbusPost
    split
    · split
      · exact .of_same rfl rfl rfl
      · split
        · exact .of_same rfl rfl rfl
        · exact .inl (eventSignal_sem _)
    · exact .of_same rfl rfl rfl
  · cases h

/-- A post of the board signals behind queueing its event. -/
theorem post_keeps {args : PostArgs} (h : s.post args = some s') : Keeps s s' := by
  unfold System.post at h
  split at h
  · cases h
  · rename_i hpost
    cases h
    obtain ⟨hrest, hsem | ⟨_, hsem⟩⟩ := rtbusPost_sem hpost
    · exact .inl hsem
    · exact .of_same hsem rfl (by rw [hrest])
  · rename_i hpost
    cases h
    obtain ⟨_, hsem | ⟨hok, _⟩⟩ := rtbusPost_sem hpost
    · exact .inl hsem
    · exact absurd rfl hok

/-- A delayed post leaves the queues alone, so there is no one to wake. -/
theorem postDelay_keeps {args : PostArgs} {delayMs : UInt32}
    (h : s.postDelay cfg args delayMs = some s') : Keeps s s' := by
  unfold System.postDelay at h
  split at h
  · exact post_keeps h
  · rename_i hdelay
    split at h
    · cases h
    · rename_i bus ret hres
      cases h
      unfold rtbusPostDelay at hres
      rw [if_neg hdelay] at hres
      split at hres
      · cases hres
        exact .of_same rfl rfl rfl
      · split at hres
        · cases hres
          exact .of_same rfl rfl rfl
        · split at hres <;> cases hres
          · exact .of_same rfl rfl rfl
          · exact .inl (eventSignal_sem _)

/-- Completing a result takes no message. -/
theorem completeResult_msgq (cfg : Config) (addr result : UInt32) (v : Service) :
    (nativeServiceCompleteResult cfg addr result v).1.postMsgq = v.postMsgq := by
  unfold nativeServiceCompleteResult
  split
  · rfl
  · split <;> rfl

/-- A start keeps the messages or purges them. -/
theorem start_msgq (loaded : Loaded) (v : Service) :
    (nativeServiceStart loaded v).1.postMsgq = v.postMsgq ∨
      (nativeServiceStart loaded v).1.postMsgq = [] := by
  rcases start_cases loaded v with h | ⟨_, _, ⟨e, h⟩ | h⟩ <;> rw [h]
  · exact .inl rfl
  · exact .inr rfl
  · exact .inl rfl

/-- Resuming behind an upgrade purges the messages. -/
theorem resume_msgq (loaded : Loaded) (v : Service) :
    (nativeServiceResumeAfterUpgrade loaded v).postMsgq = [] := by
  unfold nativeServiceResumeAfterUpgrade
  rcases start_msgq loaded (nativeServiceForceStopThread
    { v with patchHandoff := false, apiBusy := 0 }) with h | h
  · exact h
  · exact h

/-- Handing over the RAM keeps the messages or purges them. -/
theorem handoff_msgq {turns : List (Nat × Bool)} {v : Service} {done : Service × Ret}
    (h : nativeServiceHandoffRamForPatch turns v = some done) :
    done.1.postMsgq = v.postMsgq ∨ done.1.postMsgq = [] := by
  rcases handoff_cases h with ⟨_, rfl⟩ | ⟨_, rfl | rfl⟩
  · exact .inl rfl
  · exact .inr rfl
  · exact .inl rfl

/-- Every step but those that choose, and the call of `rtbus_process`, queues nothing without giving
the semaphore. -/
theorem step_keeps {e : Event} (other : e.chooses = false) (h : System.step cfg e s = some s') :
    Keeps s s' := by
  cases e with
  | appPost args => exact appPost_keeps h
  | post args => exact post_keeps h
  | postDelay args delayMs => exact postDelay_keeps h
  | advance ms =>
    cases h
    exact .of_same rfl rfl rfl
  | process =>
    have h : s.process = some s' := h
    unfold System.process at h
    split at h <;> cases h
    exact .of_same rfl rfl rfl
  | complete result =>
    have h : s.complete cfg result = some s' := h
    unfold System.complete at h
    split at h
    · split at h
      · cases h
        exact .of_same rfl rfl (completeResult_msgq cfg _ result s.bus.rest)
      · cases h
    · cases h
  | handoff turns =>
    have h : s.handoff turns = some s' := h
    unfold System.handoff at h
    split at h
    · split at h
      · obtain ⟨done, hdone, rfl⟩ := Option.map_eq_some_iff.mp h
        exact .inr ⟨rfl, rfl, handoff_msgq hdone⟩
      · cases h
    · cases h
  | resume loaded =>
    have h : s.resume loaded = some s' := h
    unfold System.resume at h
    split at h
    · split at h
      · cases h
        exact .inr ⟨rfl, rfl, .inr (resume_msgq loaded s.bus.rest)⟩
      · cases h
    · cases h
  | start loaded =>
    have h : s.start loaded = some s' := h
    unfold System.start at h
    split at h
    · split at h
      · cases h
        exact .inr ⟨rfl, rfl, start_msgq loaded s.bus.rest⟩
      · cases h
    · cases h
  | finish =>
    have h : s.finish = some s' := h
    unfold System.finish at h
    split at h
    · obtain ⟨bus, hremove, rfl⟩ := Option.map_eq_some_iff.mp h
      unfold removeNode at hremove
      split at hremove <;> cases hremove
      exact .of_same rfl rfl rfl
    · cases h
      exact .of_same rfl rfl rfl
    · cases h
  | move => cases other
  | drain => cases other
  | dispatch => cases other

/-- Nothing is left to do exactly when the messages and all queues are empty. -/
theorem workLeft_eq_false : s.workLeft = false ↔
    s.bus.rest.postMsgq = [] ∧ ∀ p < taskPriorityNumber, s.tags p = [] := by
  unfold System.workLeft
  rw [Bool.or_eq_false_iff, Bool.not_eq_false', List.isEmpty_iff, List.any_eq_false]
  simp only [List.mem_range, Bool.not_eq_true', List.isEmpty_eq_false_iff, not_not]

/-- After a step that keeps the semaphore at 0 no more is left than before. -/
theorem Keeps.workLeft (h : Keeps s s') (sem : s'.bus.eventSem = 0) :
    s.bus.eventSem = 0 ∧ (s.workLeft = false → s'.workLeft = false) := by
  rcases h with hone | ⟨hsem, htags, hmsgq⟩
  · rw [hone] at sem
    cases sem
  · refine ⟨hsem ▸ sem, fun hleft => ?_⟩
    obtain ⟨hnil, hempty⟩ := workLeft_eq_false.mp hleft
    refine workLeft_eq_false.mpr ⟨?_, fun p hp => ?_⟩
    · rcases hmsgq with hsame | hsame
      · rw [hsame, hnil]
      · exact hsame
    · rw [htags]
      exact hempty p hp

/-- `rtbus_process` has chosen an event to dispatch. -/
def Pc.chosen : Pc → Bool
  | .handling _ | .polling _ _ => true
  | _ => false

/-- A step that does not choose leads to a handler, or out of `rtbus_process`, from a handler
only. -/
theorem chosen_of_step {e : Event} (other : e.chooses = false) (h : System.step cfg e s = some s')
    (after : (e.inProcess && s'.pc.isIdle) = true ∨ s'.pc.chosen = true) :
    s.pc.chosen = true := by
  cases e with
  | appPost args =>
    have h : s.appPost args = some s' := h
    unfold System.appPost at h
    split at h <;> cases h
    exact after.resolve_left nofun
  | post args =>
    have h : s.post args = some s' := h
    unfold System.post at h
    split at h <;> cases h
    all_goals exact after.resolve_left nofun
  | postDelay args delayMs =>
    have h : s.postDelay cfg args delayMs = some s' := h
    unfold System.postDelay System.post at h
    split at h
    · split at h <;> cases h
      all_goals exact after.resolve_left nofun
    · split at h <;> cases h
      exact after.resolve_left nofun
  | advance ms =>
    cases h
    exact after.resolve_left nofun
  | process =>
    have h : s.process = some s' := h
    unfold System.process at h
    split at h <;> cases h
    rcases after with after | after <;> cases after
  | complete result =>
    have h : s.complete cfg result = some s' := h
    unfold System.complete at h
    split at h
    · rename_i hpc
      rw [hpc]
      rfl
    · cases h
  | handoff turns =>
    have h : s.handoff turns = some s' := h
    unfold System.handoff at h
    split at h
    · rename_i hpc
      rw [hpc]
      rfl
    · cases h
  | resume loaded =>
    have h : s.resume loaded = some s' := h
    unfold System.resume at h
    split at h
    · rename_i hpc
      rw [hpc]
      rfl
    · cases h
  | start loaded =>
    have h : s.start loaded = some s' := h
    unfold System.start at h
    split at h
    · rename_i hpc
      rw [hpc]
      rfl
    · cases h
  | finish =>
    have h : s.finish = some s' := h
    unfold System.finish at h
    split at h
    · rename_i hpc
      rw [hpc]
      rfl
    · rename_i hpc
      rw [hpc]
      rfl
    · cases h
  | move => cases other
  | drain => cases other
  | dispatch => cases other

/-- Posts and time leave the runtime where it stands. -/
theorem outside_pc {e : Event} (outside : e.inProcess = false)
    (h : System.step cfg e s = some s') : s'.pc = s.pc := by
  cases e with
  | appPost args =>
    have h : s.appPost args = some s' := h
    unfold System.appPost at h
    split at h <;> cases h
    rfl
  | post args =>
    have h : s.post args = some s' := h
    unfold System.post at h
    split at h <;> cases h <;> rfl
  | postDelay args delayMs =>
    have h : s.postDelay cfg args delayMs = some s' := h
    unfold System.postDelay System.post at h
    split at h
    · split at h <;> cases h <;> rfl
    · split at h <;> cases h
      rfl
  | advance ms =>
    cases h
    rfl
  | _ => cases outside

namespace RuntimeLoop

variable {timeoutMax : Nat} {l l' : RuntimeLoop}

/-- A step that blocks, if it does, with nothing left over when `rtbus_process` chose. -/
def TimelyStep (cfg : Config) (timeoutMax : Nat) (l : RuntimeLoop) (e : LoopEvent)
    (l' : RuntimeLoop) : Prop :=
  Step cfg timeoutMax l e l' ∧ ∀ timeoutMs, e = .wait → l.pc = .waiting timeoutMs →
    0 < timeoutMs → l.system.bus.eventSem = 0 → l.left = false

/-- The invariant of the loop. -/
structure Settled (l : RuntimeLoop) : Prop where
  tracked : ∃ bs q, Tracked (fun _ => True) l.system bs q
  idle : l.pc ≠ .processing → l.system.pc.isIdle = true
  chosen : l.pc ≠ .processing ∨ l.system.pc.chosen = true → l.system.bus.eventSem = 0 →
    l.left = false → l.system.workLeft = false
  asleep : ∀ wakeAt, l.pc = .blocked wakeAt →
    l.system.bus.eventSem = 0 ∧ l.system.workLeft = false

/-- One event keeps the queues tracked, whatever the posts. -/
theorem tracked_step (h : ∃ bs q, Tracked (fun _ => True) s bs q) {e : Event}
    (allowed : e.Allowed fun _ => True) (step : System.step cfg e s = some s') :
    ∃ bs q, Tracked (fun _ => True) s' bs q := by
  obtain ⟨bs, q, t⟩ := h
  exact (step_refines (fun _ => True) (fun _ => True) t allowed (fun _ _ _ _ _ => trivial)
    (fun _ _ _ _ => trivial) step).1

/-- A count of the semaphore is not part of the invariant of the system. -/
theorem tracked_withSem (n : Nat) (h : ∃ bs q, Tracked (fun _ => True) s bs q) :
    ∃ bs q, Tracked (fun _ => True) (withSem n s) bs q := by
  obtain ⟨bs, q, t⟩ := h
  exact ⟨bs, q, t.of_bus rfl rfl rfl rfl t.slots t.ownSlots t.history⟩

/-- Only a turn of `rtbus_process` chooses an event. -/
theorem chooses_outside {e : Event} (outside : e.inProcess = false) : e.chooses = false := by
  cases e <;> first | rfl | cases outside

/-- A loop that is not in a turn has chosen nothing. -/
theorem idle_not_chosen {pc : Pc} (h : pc.isIdle = true) : pc.chosen ≠ true := by
  cases pc with
  | idle => nofun
  | _ => cases h

/-- A step inside `rtbus_process`, or beside it. -/
theorem Settled.act_processing (h : l.Settled) {e : Event} (step : System.step cfg e l.system = some s')
    (tracked : ∃ bs q, Tracked (fun _ => True) s' bs q) :
    Settled ⟨s', if e.inProcess && s'.pc.isIdle then .computing else .processing,
      if e.chooses then s'.workLeft else l.left⟩ := by
  refine ⟨tracked, fun hpc => ?_, fun hchosen hsem hleft => ?_, fun wakeAt hpc => ?_⟩
  · dsimp only at hpc
    split at hpc
    · rename_i hidle
      exact (Bool.and_eq_true_iff.mp hidle).2
    · exact absurd rfl hpc
  · dsimp only at hchosen hsem hleft ⊢
    cases hchooses : e.chooses with
    | true =>
      rw [hchooses, if_pos rfl] at hleft
      exact hleft
    | false =>
      rw [hchooses, if_neg Bool.false_ne_true] at hleft
      have before := chosen_of_step hchooses step (by
        refine hchosen.imp_left fun hpc => ?_
        split at hpc
        · assumption
        · exact absurd rfl hpc)
      obtain ⟨hsem', hkeep⟩ := (step_keeps hchooses step).workLeft hsem
      exact hkeep (h.chosen (.inr before) hsem' hleft)
  · dsimp only at hpc
    split at hpc <;> cases hpc

/-- A step beside the thread while it is between two calls of `rtbus_process`. -/
theorem Settled.act_outside (h : l.Settled) {e : Event} (outside : e.inProcess = false)
    (step : System.step cfg e l.system = some s')
    (tracked : ∃ bs q, Tracked (fun _ => True) s' bs q) (between : l.pc ≠ .processing) {pc : LoopPc}
    (same : pc = l.pc) (asleep : ∀ wakeAt, pc = .blocked wakeAt → s'.bus.eventSem = 0) :
    Settled ⟨s', pc, l.left⟩ := by
  have keeps := step_keeps (chooses_outside outside) step
  refine ⟨tracked, fun _ => ?_, fun _ hsem hleft => ?_, fun wakeAt hpc => ?_⟩
  · rw [outside_pc outside step]
    exact h.idle between
  · obtain ⟨hsem', hkeep⟩ := keeps.workLeft hsem
    exact hkeep (h.chosen (.inl between) hsem' hleft)
  · have hsem := asleep wakeAt hpc
    obtain ⟨_, hkeep⟩ := keeps.workLeft hsem
    exact ⟨hsem, hkeep (h.asleep wakeAt (same ▸ hpc)).2⟩

/-- An event beside the loop keeps it settled: who leaves work signals. -/
theorem Settled.act (h : l.Settled) {e : Event} (allowed : e.Allowed fun _ => True)
    (step : l.act cfg e = some l') : l'.Settled := by
  unfold RuntimeLoop.act at step
  split at step
  · cases step
  · rename_i hguard
    split at step
    · cases step
    · rename_i s' hstep
      have tracked := tracked_step h.tracked allowed hstep
      have outside : l.pc ≠ .processing → e.inProcess = false := fun hpc =>
        Bool.eq_false_iff.mpr fun hin => hguard ⟨hin, hpc⟩
      dsimp only at step
      split at step
      · cases step
        exact h.act_processing hstep tracked
      · rename_i wakeAt hpc
        have between : l.pc ≠ .processing := by rw [hpc]; nofun
        have out := outside between
        rw [chooses_outside out, if_neg Bool.false_ne_true] at step
        split at step
        · rename_i hsem
          cases step
          exact h.act_outside out hstep tracked between hpc.symm fun _ _ => hsem
        · cases step
          -- the post has woken the thread, which is outside of `rtbus_process`
          have hidle : s'.pc.isIdle = true := by
            rw [outside_pc out hstep]
            exact h.idle between
          refine ⟨tracked_withSem 0 tracked, fun hpc => absurd rfl hpc, ?_, nofun⟩
          rintro (hpc | hchosen)
          · exact absurd rfl hpc
          · exact absurd hchosen (idle_not_chosen hidle)
      · rename_i hprocessing hblocked
        have between : l.pc ≠ .processing := hprocessing
        have out := outside between
        rw [chooses_outside out, if_neg Bool.false_ne_true] at step
        cases step
        exact h.act_outside out hstep tracked between rfl fun wakeAt hpc =>
          absurd hpc (hblocked wakeAt)

/-- Beginning to wait keeps the loop settled if nothing is left then, or the semaphore is given. -/
theorem Settled.wait (h : l.Settled)
    (timely : ∀ timeoutMs, l.pc = .waiting timeoutMs → 0 < timeoutMs →
      l.system.bus.eventSem = 0 → l.left = false)
    (step : l.wait = some l') : l'.Settled := by
  unfold RuntimeLoop.wait at step
  split at step
  · rename_i timeoutMs hpc
    have between : l.pc ≠ .processing := by rw [hpc]; nofun
    have hidle := h.idle between
    have entered : ∀ s : System, s.pc = l.system.pc →
        (∃ bs q, Tracked (fun _ => True) s bs q) → Settled ⟨s, .processing, l.left⟩ := by
      intro s hs tracked
      refine ⟨tracked, fun hpc => absurd rfl hpc, ?_, nofun⟩
      rintro (hpc | hchosen)
      · exact absurd rfl hpc
      · rw [hs] at hchosen
        exact absurd hchosen (idle_not_chosen hidle)
    split at step
    · cases step
      exact entered _ rfl (tracked_withSem _ h.tracked)
    · rename_i hsem
      have hsem : l.system.bus.eventSem = 0 := not_not.mp hsem
      split at step
      · cases step
        exact entered _ rfl h.tracked
      · rename_i hpos
        cases step
        have hleft := timely timeoutMs hpc (Nat.pos_of_ne_zero hpos) hsem
        have hnone := h.chosen (.inl between) hsem hleft
        exact ⟨h.tracked, fun _ => hidle, fun _ _ _ => hnone, fun _ _ => ⟨hsem, hnone⟩⟩
  · cases step

/-- One step keeps the loop settled. -/
theorem Settled.step (h : l.Settled) {e : LoopEvent} (step : TimelyStep cfg timeoutMax l e l') :
    l'.Settled := by
  obtain ⟨⟨step, allowed⟩, timely⟩ := step
  cases e with
  | act e => exact h.act (allowed e rfl) step
  | timeout =>
    have step : l.timeout timeoutMax = some l' := step
    unfold RuntimeLoop.timeout at step
    split at step
    · rename_i hpc
      cases step
      have between : l.pc ≠ .processing := by rw [hpc]; nofun
      exact ⟨h.tracked, fun _ => h.idle between, fun _ => h.chosen (.inl between), nofun⟩
    · cases step
  | wait => exact h.wait (fun timeoutMs => timely timeoutMs rfl) step
  | expire =>
    have step : l.expire = some l' := step
    unfold RuntimeLoop.expire at step
    split at step
    · rename_i wakeAt hpc
      split at step <;> cases step
      have hidle := h.idle (by rw [hpc]; nofun)
      refine ⟨h.tracked, fun hpc => absurd rfl hpc, ?_, nofun⟩
      rintro (hpc | hchosen)
      · exact absurd rfl hpc
      · exact absurd hchosen (idle_not_chosen hidle)
    · cases step

/-- Nothing is queued: the task queues and the message queue are empty. -/
def Idle (s : System) : Prop :=
  (∀ p < taskPriorityNumber, s.bus.taskTbl p = null) ∧ s.bus.rest.postMsgq = []

/-- A queue with no waiting event is empty, outside of handlers. -/
theorem idle_of_workLeft (h : ∃ bs q, Tracked (fun _ => True) s bs q) (hidle : s.pc.isIdle = true)
    (none : s.workLeft = false) : Idle s := by
  obtain ⟨bs, q, t⟩ := h
  obtain ⟨hmsgq, htags⟩ := workLeft_eq_false.mp none
  refine ⟨fun p hp => ?_, hmsgq⟩
  have hpc : s.pc = .idle := by
    cases hpc : s.pc with
    | idle => rfl
    | _ =>
      rw [hpc] at hidle
      cases hidle
  have hall := t.tags p
  rw [hpc, htags p hp] at hall
  have hq : q p = [] := List.forall₂_nil_right_iff.mp hall
  exact (t.ready.queued.head_eq_zero_iff p).mpr hq

/-- In a run in which the thread blocks only when nothing was left over: whenever it is blocked, the
task queues and the message queue of the application are empty. -/
theorem idle_while_blocked (h : Run.Reachable Start (TimelyStep cfg timeoutMax) l) {wakeAt : Nat}
    (hpc : l.pc = .blocked wakeAt) : l.system.bus.eventSem = 0 ∧ Idle l.system := by
  have settled : l.Settled := by
    refine Run.Reachable.invariant (I := Settled) ?_ (fun _ _ _ h => h.step) h
    rintro l ⟨start, hpc⟩
    have hidle : l.system.pc.isIdle = true := by
      obtain ⟨_, _, _, _, _, _, _, hs⟩ := start
      rw [hs]
      rfl
    refine ⟨start.tracked fun _ => trivial, fun _ => hidle, ?_, fun wakeAt hblocked => ?_⟩
    · rintro (hne | hchosen)
      · exact absurd hpc hne
      · exact absurd hchosen (idle_not_chosen hidle)
    · rw [hpc] at hblocked
      cases hblocked
  obtain ⟨hsem, hnone⟩ := settled.asleep wakeAt hpc
  exact ⟨hsem, idle_of_workLeft settled.tracked (settled.idle (by rw [hpc]; nofun)) hnone⟩

/-! ## Two runs -/

/-- The loop after `rtbus_init` with these tasks and a pool of 256 bytes. -/
def bootLoop (tasks : EntryTable Task) : Option RuntimeLoop :=
  match rtbusInit bootBus 0x20001000 256 (some tasks) with
  | some (bus, .ok) =>
    some
      { system :=
          { bus := bus, pc := .idle, calls := [], refused := [], completions := []
            tags := fun p =>
              ((Fifo.initial bus.backend bus.entryCount).pending p).map fun _ => none }
        pc := .processing
        left := false }
  | _ => none

/-- A loop that boots is at its start. -/
theorem bootLoop_start {tasks : EntryTable Task} (h : bootLoop tasks = some l) : l.Start := by
  unfold bootLoop at h
  split at h
  · rename_i bus hinit
    cases h
    exact ⟨⟨bootBus, 0x20001000, 256, some tasks, by decide, rfl, hinit, rfl⟩, rfl⟩
  · cases h

/-- One turn of the loop, with nothing due. -/
def iteration : List LoopEvent :=
  untilDrain.map .act ++ [.act .drain, .act .dispatch, .act .finish, .timeout, .wait]

/-- Whether the step is neither a post of the runtime nor one that blocks with something left
over. -/
def quiet (l : RuntimeLoop) : LoopEvent → Bool
  | .act (.post _) | .act (.postDelay _ _) => false
  | .wait => !l.left || l.system.bus.eventSem != 0
  | _ => true

/-- Whether the step is not a post of the runtime. -/
def silent (_ : RuntimeLoop) : LoopEvent → Bool
  | .act (.post _) | .act (.postDelay _ _) => false
  | _ => true

/-- A step of a run that the check lets pass. -/
theorem step_of_silent {e : LoopEvent} (check : silent l e = true)
    (step : RuntimeLoop.step cfg timeoutMax e l = some l') : Step cfg timeoutMax l e l' := by
  refine ⟨step, ?_⟩
  rintro act rfl
  cases act <;> first | exact trivial | cases check

/-- The same for a step in time. -/
theorem timelyStep_of_quiet {e : LoopEvent} (check : quiet l e = true)
    (step : RuntimeLoop.step cfg timeoutMax e l = some l') : TimelyStep cfg timeoutMax l e l' := by
  refine ⟨step_of_silent ?_ step, ?_⟩
  · cases e with
    | act e => cases e <;> exact check
    | _ => rfl
  · rintro timeoutMs rfl _ _ hsem
    rcases Bool.or_eq_true_iff.mp check with hleft | hne
    · exact Bool.not_eq_true' l.left ▸ hleft
    · rw [hsem] at hne
      cases hne

/-- Whether the thread is blocked. -/
def isBlocked (l : RuntimeLoop) : Bool :=
  match l.pc with
  | .blocked _ => true
  | _ => false

/-- A loop that is blocked is so up to some time. -/
theorem exists_blocked (h : l.isBlocked = true) : ∃ wakeAt, l.pc = .blocked wakeAt := by
  unfold isBlocked at h
  split at h
  · rename_i wakeAt hpc
    exact ⟨wakeAt, hpc⟩
  · cases h

/-- With two tasks the thread blocks after the two `INIT` events. -/
theorem blocked_after_two : ∃ l wakeAt, Run.Reachable Start (TimelyStep defaultConfig 100) l ∧
    l.pc = .blocked wakeAt ∧ l.system.bus.eventSem = 0 ∧ Idle l.system := by
  obtain ⟨_, l, hboot, run, hblocked⟩ := Run.exists_of_bind_follow (step defaultConfig 100)
    quiet (iteration ++ iteration) (bootLoop twoTasks) isBlocked (by decide +kernel)
  obtain ⟨wakeAt, hpc⟩ := exists_blocked hblocked
  have reach : Run.Reachable Start (TimelyStep defaultConfig 100) l :=
    .follow (fun _ _ _ => timelyStep_of_quiet) (.start (bootLoop_start hboot)) run
  exact ⟨l, wakeAt, reach, hpc, idle_while_blocked reach hpc⟩

/-- The tasks of the diagnostics, the command line and the serial service. -/
def threeTasks : EntryTable Task :=
  { entries := [⟨0, 2, some .diagnostics, true, false⟩, ⟨1, 2, some .cli, true, false⟩,
      ⟨2, 2, some .runtimeSerial, true, false⟩]
    count_lt := by decide }

/-- With three tasks the thread blocks after two of the three `INIT` events. -/
theorem blocked_with_event :
    ¬ ∀ l wakeAt, Run.Reachable Start (Step defaultConfig 100) l → l.pc = .blocked wakeAt →
      l.system.bus.eventSem = 0 → Idle l.system := by
  intro always
  obtain ⟨_, l, hboot, run, htest⟩ := Run.exists_of_bind_follow (step defaultConfig 100)
    silent (iteration ++ iteration) (bootLoop threeTasks)
    (fun l => l.isBlocked && l.system.bus.eventSem == 0 && l.system.bus.taskTbl 2 != null)
    (by decide +kernel)
  simp only [Bool.and_eq_true, beq_iff_eq, bne_iff_ne] at htest
  obtain ⟨⟨hblocked, hsem⟩, hqueue⟩ := htest
  obtain ⟨wakeAt, hpc⟩ := exists_blocked hblocked
  have reach : Run.Reachable Start (Step defaultConfig 100) l :=
    .follow (fun _ _ _ => step_of_silent) (.start (bootLoop_start hboot)) run
  exact hqueue ((always l wakeAt reach hpc hsem).1 2 (by decide))

end RuntimeLoop

end Rtbus.Native
