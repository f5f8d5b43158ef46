import Rtbus.Base.Run
import Rtbus.Native.Application

/-!
# Waking up in a delay

An event that is put and posted between the application's last look at the queue and its wait is
forgotten: the wait clears the post. As long as the application enters no wait so, it never sleeps
on an event, except for the moment in which the post of one is still to come.
-/

namespace Rtbus.Native

/-- A call that may have another one above it. -/
def Frame.calls : Frame → Bool
  | .native | .callback | .dispatching _ => true
  | _ => false

namespace AppThread

variable {cfg : Config} {a a' : AppThread}

/-- The thread is blocked, an event is queued, and nothing says so. -/
def Oversleeps (a : AppThread) : Prop :=
  a.Blocked ∧ a.service.eventMsgq ≠ [] ∧ a.service.wakeIrq = false

/-- A step that enters `k_event_wait`, if it does, with no event queued, or with the post of one
still to come. -/
def TimelyStep (cfg : Config) (a : AppThread) (e : AppEvent) (a' : AppThread) : Prop :=
  Step cfg a e a' ∧ (e = .turn → a.Waits → a.service.eventMsgq = [] ∨ 0 < a.emitting)

/-- What holds of a blocked thread: its wait has cleared `NATIVE_WAKE_IRQ`, and any event that is
queued is about to be posted. -/
structure Rests (a : AppThread) : Prop where
  quiet : a.service.wakeIrq = false
  pending : a.service.eventMsgq = [] ∨ 0 < a.emitting

/-- The invariant: a thread rests when it is blocked, and it is blocked in its innermost call
only. -/
structure Attentive (a : AppThread) : Prop where
  rests : a.Blocked → a.Rests
  nested : ∀ frame ∈ a.frames.tail, frame.calls = true

/-- A woken thread is not blocked. -/
theorem wake_not_blocked (a : AppThread) : ¬ a.wake.Blocked := by
  rintro ⟨deadline, wakeAt, rest, h⟩
  unfold wake at h
  split at h
  · cases h
  · rename_i hne
    exact hne _ _ _ h

/-- Waking the thread leaves the calls around the delay. -/
theorem nested_wake (h : ∀ frame ∈ a.frames.tail, frame.calls = true) :
    ∀ frame ∈ a.wake.frames.tail, frame.calls = true := by
  unfold wake
  split
  · rename_i hframes
    rw [hframes] at h
    exact h
  · exact h

/-- A woken thread is attentive, whatever has been posted to it. -/
theorem attentive_wake (h : ∀ frame ∈ a.frames.tail, frame.calls = true) : a.wake.Attentive :=
  ⟨fun hb => absurd hb (wake_not_blocked a), nested_wake h⟩

/-- A thread whose innermost call is another than `k_event_wait` is attentive. -/
theorem attentive_of_frame {frame : Frame} {rest : List Frame} (h : a.frames = frame :: rest)
    (awake : ∀ deadline wakeAt, frame ≠ .blocked deadline wakeAt)
    (nested : ∀ frame ∈ rest, frame.calls = true) : a.Attentive := by
  refine ⟨?_, by rwa [h]⟩
  rintro ⟨deadline, wakeAt, rest', h'⟩
  rw [h] at h'
  cases h'
  exact absurd rfl (awake _ _)

/-- A thread that has returned to its callers is attentive. -/
theorem attentive_of_calls (nested : ∀ frame ∈ a.frames, frame.calls = true) : a.Attentive := by
  refine ⟨?_, fun frame h => nested frame (List.mem_of_mem_tail h)⟩
  rintro ⟨deadline, wakeAt, rest, h⟩
  have := nested (.blocked deadline wakeAt) (by rw [h]; exact List.mem_cons_self)
  cases this

/-- A step that leaves the frames and `NATIVE_WAKE_IRQ` alone, and adds no event or announces its
post, keeps the thread attentive. -/
theorem Attentive.of_same (h : a.Attentive) (frames : a'.frames = a.frames)
    (quiet : a'.service.wakeIrq = a.service.wakeIrq)
    (pending : (a'.service.eventMsgq = a.service.eventMsgq ∧ a'.emitting = a.emitting) ∨
      0 < a'.emitting) : a'.Attentive := by
  refine ⟨?_, by rw [frames]; exact h.nested⟩
  rintro ⟨deadline, wakeAt, rest, hframes⟩
  have rests := h.rests ⟨deadline, wakeAt, rest, frames ▸ hframes⟩
  refine ⟨quiet.trans rests.quiet, ?_⟩
  rcases pending with ⟨hqueue, hcount⟩ | hcount
  · rw [hqueue, hcount]
    exact rests.pending
  · exact .inr hcount

/-- The step of the thread itself. -/
theorem Attentive.turn (h : a.Attentive)
    (timely : a.Waits → a.service.eventMsgq = [] ∨ 0 < a.emitting) (step : a.turn = some a') :
    a'.Attentive := by
  obtain ⟨_, nested⟩ := h
  unfold AppThread.turn at step
  split at step
  case h_1 rest hframes =>
    cases step
    rw [hframes] at nested
    refine attentive_of_frame rfl (fun _ _ => ?_) nested
    split <;> nofun
  case h_2 back rest hframes =>
    rw [hframes] at nested
    have hall : ∀ f ∈ a.frames, f.calls = true := by
      intro f hf
      rw [hframes] at hf
      rcases List.mem_cons.mp hf with rfl | hf
      · rfl
      · exact nested f hf
    split at step <;> cases step
    · -- an event: the callback is called above the dispatch, if there is one
      apply attentive_of_calls
      intro frame hmem
      dsimp only at hmem
      split at hmem
      · exact hall frame hmem
      · rcases List.mem_cons.mp hmem with rfl | hmem
        · rfl
        · exact hall frame hmem
    · exact attentive_of_frame rfl (fun _ _ => nofun) nested
    · exact attentive_of_frame rfl (fun _ _ => nofun) nested
    · exact attentive_of_frame rfl (fun _ _ => nofun) nested
    · exact attentive_of_calls nested
  case h_3 deadline rest hframes =>
    cases step
    rw [hframes] at nested
    exact attentive_of_frame rfl (fun _ _ => nofun) nested
  case h_4 deadline remaining rest hframes =>
    rw [hframes] at nested
    split at step
    · cases step
      exact attentive_of_calls nested
    · split at step <;> cases step
      · exact attentive_of_frame rfl (fun _ _ => nofun) nested
      · exact attentive_of_frame rfl (fun _ _ => nofun) nested
  case h_5 deadline remaining rest hframes =>
    cases step
    rw [hframes] at nested
    exact ⟨fun _ => ⟨rfl, timely ⟨deadline, remaining, rest, hframes⟩⟩, nested⟩
  case h_6 deadline wakeAt rest hframes =>
    rw [hframes] at nested
    split at step
    · cases step
    · cases step
      exact attentive_of_frame rfl (fun _ _ => nofun) nested
  case h_7 deadline irq rest hframes =>
    cases step
    rw [hframes] at nested
    refine attentive_of_frame rfl (fun _ _ => ?_) nested
    split <;> nofun
  all_goals cases step

/-- A thread that was stopped and perhaps created again is attentive. -/
theorem Attentive.restarted (h : a.Attentive) {service : Service}
    (quiet : service.wakeIrq = a.service.wakeIrq ∨ service.threadId = false)
    (queue : service.eventMsgq = a.service.eventMsgq ∨ service.threadId = false) :
    (a.restarted service).Attentive := by
  unfold AppThread.restarted
  split
  · exact attentive_of_calls nofun
  · rename_i alive
    split
    · exact h.of_same rfl (quiet.resolve_right alive) (.inl ⟨queue.resolve_right alive, rfl⟩)
    · exact attentive_of_frame rfl (fun _ _ => nofun) nofun

/-- Whoever asks for a stop wakes the thread. -/
theorem Attentive.requestStop (h : a.Attentive) : a.requestStop.Attentive := by
  have awake := attentive_wake (a := { a with
    service := nativeServiceRequestStopForUpgrade a.service }) h.nested
  unfold AppThread.requestStop
  generalize wake { a with service := nativeServiceRequestStopForUpgrade a.service } = b at awake ⊢
  dsimp only
  split
  · rename_i rest hframes
    have nested := awake.nested
    rw [hframes] at nested
    exact attentive_of_frame rfl (fun _ _ => nofun) nested
  · exact awake

/-- Completing a result leaves it attentive. -/
theorem Attentive.complete (h : a.Attentive) (resultAddr result : UInt32) :
    (a.complete cfg resultAddr result).Attentive := by
  unfold AppThread.complete
  split
  · split
    · exact h
    · exact attentive_wake h.nested
  · exact h

/-- So does an event that is put, with its post still to come. -/
theorem Attentive.emitPut (h : a.Attentive) (group tag : UInt16) (value : Option (List UInt8))
    (len : UInt16) : (a.emitPut group tag value len).Attentive := by
  unfold AppThread.emitPut nativeServiceEmitEvent
  split
  · rename_i service hput
    refine h.of_same rfl ?_ (.inr (Nat.succ_pos _))
    split at hput
    · cases hput
    · split at hput
      · cases hput
      · split at hput <;> cases hput
        rfl
  · exact h

/-- `native_service_start` leaves the queue and the events alone, or there is no thread. -/
theorem start_quiet (loaded : Loaded) (s : Service) :
    (nativeServiceStart loaded s).1.threadId = false ∨
      (nativeServiceStart loaded s).1.wakeIrq = s.wakeIrq ∧
        (nativeServiceStart loaded s).1.eventMsgq = s.eventMsgq := by
  rcases start_cases loaded s with h | ⟨_, _, ⟨e, h⟩ | h⟩ <;> rw [h]
  · exact .inr ⟨rfl, rfl⟩
  · exact .inl rfl
  · exact .inr ⟨rfl, rfl⟩

/-- Every step keeps the thread attentive, if it enters no wait too late. -/
theorem Attentive.step {e : AppEvent} (h : a.Attentive) (step : TimelyStep cfg a e a') :
    a'.Attentive := by
  obtain ⟨step, timely⟩ := step
  cases e with
  | emitPut group tag value len =>
    cases step
    exact h.emitPut group tag value len
  | emitPost =>
    have step : a.emitPost = some a' := step
    unfold AppThread.emitPost at step
    split at step
    · cases step
    · cases step
      exact attentive_wake h.nested
  | advance ms =>
    cases step
    exact h.of_same rfl rfl (.inl ⟨rfl, rfl⟩)
  | turn => exact h.turn (timely rfl) step
  | callDelay delayMs =>
    have step : a.callDelay delayMs = some a' := step
    unfold AppThread.callDelay at step
    split at step
    all_goals cases step
    all_goals
      rename_i rest hframes
      have nested := h.nested
      rw [hframes] at nested
      refine attentive_of_frame rfl (fun _ _ => nofun) fun f hf => ?_
      rw [hframes] at hf
      rcases List.mem_cons.mp hf with rfl | hf
      · rfl
      · exact nested f hf
  | callOnEvent callback =>
    have step : a.callOnEvent callback = some a' := step
    unfold AppThread.callOnEvent at step
    split at step
    all_goals cases step
    all_goals exact h.of_same rfl rfl (.inl ⟨rfl, rfl⟩)
  | returnCode =>
    have step : a.returnCode = some a' := step
    unfold AppThread.returnCode at step
    have nested := h.nested
    split at step
    case h_1 rest hframes =>
      cases step
      rw [hframes] at nested
      exact attentive_of_frame rfl (fun _ _ => nofun) nested
    case h_2 rest hframes =>
      cases step
      rw [hframes] at nested
      exact attentive_of_calls nested
    case h_3 => cases step
  | complete resultAddr result =>
    cases step
    exact h.complete resultAddr result
  | requestStop =>
    cases step
    exact h.requestStop
  | forceStop =>
    cases step
    exact h.restarted (.inr rfl) (.inr rfl)
  | start loaded =>
    cases step
    rcases start_quiet loaded a.service with dead | ⟨quiet, queue⟩
    · exact h.restarted (.inr dead) (.inr dead)
    · exact h.restarted (.inl quiet) (.inl queue)
  | resume loaded =>
    cases step
    split
    · exact attentive_of_frame rfl (fun _ _ => nofun) nofun
    · exact attentive_of_calls nofun

/-- It is so in every reachable state. -/
theorem reachable_attentive (h : Run.Reachable Start (TimelyStep cfg) a) : a.Attentive := by
  refine Run.Reachable.invariant (I := Attentive) ?_ (fun _ _ _ => Attentive.step) h
  rintro a ⟨_, frames, _, _⟩
  exact attentive_of_calls (by rw [frames]; nofun)

/-- In a run that enters no wait too late, the thread never sleeps on an event once the calls that
emit events have returned; before that, the next post wakes it, with `NATIVE_WAKE_IRQ`. -/
theorem no_lost_wakeup (h : Run.Reachable Start (TimelyStep cfg) a) :
    (a.emitting = 0 → ¬ a.Oversleeps) ∧
      (a.Oversleeps → ∃ a' deadline rest, a.emitPost = some a' ∧
        a'.frames = .woken deadline true :: rest) := by
  have attentive := reachable_attentive h
  constructor
  · rintro hcount ⟨hblocked, hqueue, _⟩
    rcases (attentive.rests hblocked).pending with hnil | hpos
    · exact hqueue hnil
    · exact Nat.ne_of_gt hpos hcount
  · rintro ⟨hblocked, hqueue, _⟩
    have hpos := (attentive.rests hblocked).pending.resolve_left hqueue
    obtain ⟨deadline, wakeAt, rest, hframes⟩ := hblocked
    refine ⟨_, deadline, rest, if_neg (Nat.ne_of_gt hpos), ?_⟩
    unfold wake
    dsimp only
    rw [hframes]

/-- A wait that is entered too late oversleeps at once. -/
theorem oversleeps_of_late (hwaits : a.Waits) (hqueue : a.service.eventMsgq ≠ [])
    (step : a.turn = some a') : a'.Oversleeps ∧ a'.emitting = a.emitting := by
  obtain ⟨deadline, remaining, rest, hframes⟩ := hwaits
  unfold turn at step
  rw [hframes] at step
  cases step
  exact ⟨⟨⟨_, _, _, rfl⟩, hqueue, rfl⟩, rfl⟩

/-! ## Two runs -/

/-- A thread that is started, runs its application, and calls `native_api_k_delay` up to the call of
`k_event_wait`. -/
def untilWait : List AppEvent :=
  [.start ⟨.ok, 0x08020080, fun _ => 0⟩, .turn, .turn, .callDelay 100, .turn, .turn, .turn]

/-- The state after boot. -/
def boot : AppThread :=
  { service := .boot, uptime := 0, frames := [], emitting := 0, delays := [] }

/-- Whether a thread oversleeps. -/
def oversleeps (a : AppThread) : Bool :=
  (match a.frames with
    | .blocked _ _ :: _ => true
    | _ => false) && !a.service.eventMsgq.isEmpty && !a.service.wakeIrq

/-- The test for a thread that oversleeps is that property. -/
theorem Oversleeps.of_test (h : a.oversleeps = true) : a.Oversleeps := by
  unfold oversleeps at h
  simp only [Bool.and_eq_true, Bool.not_eq_true', List.isEmpty_eq_false_iff] at h
  obtain ⟨⟨hframes, hqueue⟩, hirq⟩ := h
  split at hframes
  · rename_i deadline wakeAt rest hblocked
    exact ⟨⟨deadline, wakeAt, rest, hblocked⟩, hqueue, hirq⟩
  · cases hframes

/-- Whether a wait is entered with an event queued. -/
def timely (a : AppThread) (e : AppEvent) : Bool :=
  match e, a.frames with
  | .turn, .waiting _ _ :: _ => a.service.eventMsgq.isEmpty
  | _, _ => true

/-- A step that the check lets pass is in time. -/
theorem TimelyStep.of_test {e : AppEvent} (check : a.timely e = true)
    (step : AppThread.step cfg e a = some a') : TimelyStep cfg a e a' := by
  refine ⟨step, ?_⟩
  rintro rfl ⟨deadline, remaining, rest, hframes⟩
  unfold timely at check
  rw [hframes] at check
  exact .inl (List.isEmpty_iff.mp check)

/-- An event that is put while the thread is blocked wakes it with its post. -/
theorem emit_wakes_sample : ∃ a : AppThread,
    Run.Reachable Start (TimelyStep ⟨32, true, 0x20035000, 8192⟩) a ∧ a.Oversleeps ∧
      ∃ a' deadline rest, a.emitPost = some a' ∧ a'.frames = .woken deadline true :: rest := by
  obtain ⟨a, run, htest⟩ := Run.exists_of_follow (step ⟨32, true, 0x20035000, 8192⟩) timely
    (untilWait ++ [.turn, .emitPut 1 1 none 0]) boot oversleeps (by decide +kernel)
  have reach : Run.Reachable Start (TimelyStep ⟨32, true, 0x20035000, 8192⟩) a :=
    .follow (fun _ _ _ => TimelyStep.of_test) (.start ⟨rfl, rfl, rfl, rfl⟩) run
  exact ⟨a, reach, .of_test htest, (no_lost_wakeup reach).2 (.of_test htest)⟩

/-- An event that is emitted between the application's look at the queue and its wait is slept on,
though the call that emits it has returned. -/
theorem wakeup_lost :
    ¬ ∀ a : AppThread, Run.Reachable Start (Step ⟨32, true, 0x20035000, 8192⟩) a →
      a.emitting = 0 → ¬ a.Oversleeps := by
  intro always
  obtain ⟨a, run, htest⟩ := Run.exists_of_follow (step ⟨32, true, 0x20035000, 8192⟩)
    (fun _ _ => true) (untilWait ++ [.emitPut 1 1 none 0, .emitPost, .turn]) boot
    (fun a => a.oversleeps && a.emitting == 0) (by decide +kernel)
  obtain ⟨hsleeps, hcount⟩ := Bool.and_eq_true_iff.mp htest
  have reach : Run.Reachable Start (Step ⟨32, true, 0x20035000, 8192⟩) a :=
    .follow (fun _ _ _ _ h => h) (.start ⟨rfl, rfl, rfl, rfl⟩) run
  exact always a reach (beq_iff_eq.mp hcount) (.of_test hsleeps)

end AppThread

end Rtbus.Native
