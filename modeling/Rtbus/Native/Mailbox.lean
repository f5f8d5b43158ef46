import Rtbus.Native.Wakeup

/-!
# Events on their way

The runtime tells the application of events through `native_event_msgq`, from any of its threads;
the application takes them out of it in `native_api_k_delay`, and before and behind its entry.
`Mailbox` is the application thread with the history of its events: those that were accepted, and
what has become of those that have left the queue.

No accepted event is lost on the way, doubled or overtaken by another (`events_in_order`). A stop
throws away what waits, so that no application hears of what happened before it was started.

An event that is slept on is not lost either: at the latest when the delay ends, everything that
waits is handed over, and the delay ends when it should (`delivered_in_delay`).
-/

namespace Rtbus.Native

/-- What becomes of an event that leaves the queue: it is handed to the callback, or there is no
callback to hand it to, or a stop throws it away. -/
inductive EventFate
  | handed
  | unheard
  | purged
  deriving DecidableEq

/-- The application thread with the history of its events. -/
structure Mailbox where
  app : AppThread
  accepted : List RuntimeEvent
  settled : List (RuntimeEvent × EventFate)

namespace AppThread

/-- The events that `native_service_emit_event` accepts in a step. -/
def admitted (a : AppThread) : AppEvent → List RuntimeEvent
  | .emitPut group tag value len =>
    if (nativeServiceEmitEvent group tag value len a.service).2 = .ok then
      [⟨group, tag, (value.getD []).take len.toNat⟩]
    else []
  | _ => []

/-- What becomes of an event that the thread takes. -/
def fate (a : AppThread) : EventFate :=
  if a.service.eventCallback = none then .unheard else .handed

/-- The events that leave the queue in a step to `a'`: the thread takes one, or the thread has been
stopped. -/
def leaving (a a' : AppThread) : AppEvent → List (RuntimeEvent × EventFate)
  | .turn =>
    match a.frames, a.service.eventMsgq with
    | .dispatching _ :: _, event :: _ => [(event, a.fate)]
    | _, _ => []
  | _ =>
    if a'.service.era = a.service.era then []
    else a.service.eventMsgq.map fun event => (event, .purged)

end AppThread

namespace Mailbox

variable {cfg : Config} {p p' : Mailbox}

/-- A step of the thread, with the history of its events. -/
def step (cfg : Config) (e : AppEvent) (p : Mailbox) : Option Mailbox :=
  (AppThread.step cfg e p.app).map fun app =>
    { app := app
      accepted := p.accepted ++ p.app.admitted e
      settled := p.settled ++ p.app.leaving app e }

/-- A step with an event. -/
def Step (cfg : Config) (p : Mailbox) (e : AppEvent) (p' : Mailbox) : Prop := step cfg e p = some p'

/-- At boot. -/
def Start (p : Mailbox) : Prop := p.app.Start ∧ p.accepted = [] ∧ p.settled = []

end Mailbox

/-! ## The queue -/

namespace AppThread

variable {cfg : Config} {a a' : AppThread}

/-- Waking the thread is not seen by the service. -/
@[simp] theorem wake_service (a : AppThread) : a.wake.service = a.service := by
  unfold wake
  split <;> rfl

@[simp] theorem wake_delays (a : AppThread) : a.wake.delays = a.delays := by
  unfold wake
  split <;> rfl

/-- `native_service_emit_event` refuses an event that is malformed, or that there is no room for. -/
def Refuses (a : AppThread) (value : Option (List UInt8)) (len : UInt16) : Prop :=
  runtimeEventValueMax < len.toNat ∨ (len ≠ 0 ∧ value = none) ∨
    eventQueueDepth ≤ a.service.eventMsgq.length

/-- An emit is refused and nothing changes, or the event is the last in the queue. -/
theorem emitEvent_cases (a : AppThread) (group tag : UInt16) (value : Option (List UInt8))
    (len : UInt16) :
    (a.Refuses value len ∧
      ∃ e, nativeServiceEmitEvent group tag value len a.service = (a.service, .err e)) ∨
    (¬ a.Refuses value len ∧ nativeServiceEmitEvent group tag value len a.service =
      ({ a.service with
          eventMsgq := a.service.eventMsgq ++ [⟨group, tag, (value.getD []).take len.toNat⟩] },
        .ok)) := by
  unfold nativeServiceEmitEvent
  split
  · rename_i hlong
    exact .inl ⟨.inl hlong, _, rfl⟩
  · rename_i hlong
    split
    · rename_i hnull
      exact .inl ⟨.inr (.inl hnull), _, rfl⟩
    · rename_i hnull
      split
      · rename_i hfull
        exact .inl ⟨.inr (.inr hfull), _, rfl⟩
      · rename_i hfull
        exact .inr ⟨fun h => h.elim hlong fun h => h.elim hnull hfull, rfl⟩

/-- A start leaves the queue alone, or the load has failed and the queue is thrown away. -/
theorem start_queue (loaded : Loaded) (s : Service) :
    ((nativeServiceStart loaded s).1.era = s.era ∧
        (nativeServiceStart loaded s).1.eventMsgq = s.eventMsgq) ∨
      ((nativeServiceStart loaded s).1.era = s.era + 1 ∧
        (nativeServiceStart loaded s).1.eventMsgq = []) := by
  rcases start_cases loaded s with h | ⟨_, _, ⟨e, h⟩ | h⟩ <;> rw [h]
  · exact .inl ⟨rfl, rfl⟩
  · exact .inr ⟨rfl, rfl⟩
  · exact .inl ⟨rfl, rfl⟩

/-- A resume throws the queue away. -/
theorem resume_queue (loaded : Loaded) (s : Service) :
    s.era < (nativeServiceResumeAfterUpgrade loaded s).era ∧
      (nativeServiceResumeAfterUpgrade loaded s).eventMsgq = [] := by
  unfold nativeServiceResumeAfterUpgrade
  dsimp only
  rcases start_queue loaded
    (nativeServiceForceStopThread { s with patchHandoff := false, apiBusy := 0 }) with
    ⟨hera, hqueue⟩ | ⟨hera, hqueue⟩ <;> rw [hera, hqueue]
  · exact ⟨Nat.lt_succ_self _, rfl⟩
  · exact ⟨Nat.lt_succ_of_lt (Nat.lt_succ_self _), rfl⟩

/-- Completing a result leaves the events alone. -/
theorem complete_queue (cfg : Config) (a : AppThread) (resultAddr result : UInt32) :
    (a.complete cfg resultAddr result).service.era = a.service.era ∧
      (a.complete cfg resultAddr result).service.eventMsgq = a.service.eventMsgq ∧
      (a.complete cfg resultAddr result).delays = a.delays := by
  unfold complete nativeServiceCompleteResult
  split
  · rename_i service hres
    split at hres
    · cases hres
      rw [if_pos (by assumption)]
      exact ⟨rfl, rfl, rfl⟩
    · split at hres <;> cases hres
      rw [if_neg (by assumption), wake_service, wake_delays]
      exact ⟨rfl, rfl, rfl⟩
  · exact ⟨rfl, rfl, rfl⟩

/-- So does asking for a stop. -/
theorem requestStop_queue (a : AppThread) :
    a.requestStop.service.era = a.service.era ∧
      a.requestStop.service.eventMsgq = a.service.eventMsgq ∧ a.requestStop.delays = a.delays := by
  unfold requestStop
  dsimp only
  split <;> rw [wake_service, wake_delays] <;> exact ⟨rfl, rfl, rfl⟩

/-- A delay that returns is one more. -/
theorem delays_ne (a : AppThread) (r : Ret) : a.delays ≠ a.delays ++ [r] := fun h =>
  absurd (congrArg List.length h)
    (by rw [List.length_append]; exact Nat.ne_of_lt (Nat.lt_succ_self _))

/-- What a turn of the thread does to its events: it takes the first one, or none, and
`native_api_k_delay` returns 0 only if there is none. -/
theorem turn_cases (step : a.turn = some a') :
    (∃ next rest event queue, a.frames = .dispatching next :: rest ∧
      a.service.eventMsgq = event :: queue ∧
      a' = { a with
        service := { a.service with eventMsgq := queue }
        frames := if a.service.eventCallback = none then a.frames else .callback :: a.frames }) ∨
    (a.leaving a' .turn = [] ∧ a'.service.eventMsgq = a.service.eventMsgq ∧
      a'.service.era = a.service.era ∧
      (a'.delays = a.delays ++ [.ok] → a.service.eventMsgq = [])) := by
  unfold turn at step
  unfold leaving
  split at step
  case h_2 next rest hframes =>
    rw [hframes]
    split at step <;> rename_i hqueue
    · cases step
      exact .inl ⟨_, _, _, _, rfl, hqueue, by rw [hframes]⟩
    all_goals
      cases step
      rw [hqueue]
      exact .inr ⟨rfl, rfl, rfl, fun _ => rfl⟩
  case h_4 deadline remaining rest hframes =>
    refine .inr ?_
    rw [hframes]
    split at step
    · cases step
      refine ⟨rfl, rfl, rfl, fun h => ?_⟩
      cases List.append_cancel_left h
    · split at step <;> cases step <;> exact ⟨rfl, rfl, rfl, fun h => absurd h (delays_ne a _)⟩
  case h_6 deadline wakeAt rest hframes =>
    refine .inr ?_
    rw [hframes]
    split at step <;> cases step
    exact ⟨rfl, rfl, rfl, fun h => absurd h (delays_ne a _)⟩
  case h_1 rest hframes | h_3 deadline rest hframes | h_5 deadline remaining rest hframes
      | h_7 deadline irq rest hframes =>
    cases step
    rw [hframes]
    exact .inr ⟨rfl, rfl, rfl, fun h => absurd h (delays_ne a _)⟩
  all_goals cases step

/-- What a step does to the events: what was queued or has been accepted has left the queue or is
queued, in that order. -/
structure Settles (a a' : AppThread) (e : AppEvent) : Prop where
  queue : a.service.eventMsgq ++ a.admitted e =
    (a.leaving a' e).map Prod.fst ++ a'.service.eventMsgq
  room : a.service.eventMsgq.length ≤ eventQueueDepth →
    a'.service.eventMsgq.length ≤ eventQueueDepth
  empty : a'.delays = a.delays ++ [.ok] ∨ a'.service.era ≠ a.service.era →
    a'.service.eventMsgq = []
  handed : ∀ event, (event, .handed) ∈ a.leaving a' e →
    a.service.eventCallback ≠ none ∧ a'.frames = .callback :: a.frames

/-- A step that leaves the queue as it is settles nothing. -/
theorem Settles.of_same {e : AppEvent} (admitted : a.admitted e = [])
    (leaving : a.leaving a' e = []) (queue : a'.service.eventMsgq = a.service.eventMsgq)
    (era : a'.service.era = a.service.era)
    (quiet : a'.delays = a.delays ++ [.ok] → a.service.eventMsgq = []) : Settles a a' e where
  queue := by rw [admitted, leaving, queue, List.append_nil, List.map_nil, List.nil_append]
  room h := by rwa [queue]
  empty := by
    rintro (h | h)
    · rw [queue]
      exact quiet h
    · exact absurd era h
  handed event h := by rw [leaving] at h; cases h

/-- A step that may stop the thread settles what waits, if it does. -/
theorem Settles.of_stop {e : AppEvent} (admitted : a.admitted e = [])
    (leaving : a.leaving a' e =
      if a'.service.era = a.service.era then []
      else a.service.eventMsgq.map fun event => (event, .purged))
    (delays : a'.delays = a.delays)
    (queue : (a'.service.era = a.service.era ∧ a'.service.eventMsgq = a.service.eventMsgq) ∨
      (a'.service.era ≠ a.service.era ∧ a'.service.eventMsgq = [])) : Settles a a' e := by
  rcases queue with ⟨hera, hqueue⟩ | ⟨hera, hqueue⟩
  · exact .of_same admitted (leaving.trans (if_pos hera)) hqueue hera
      fun h => absurd (delays ▸ h) (delays_ne a _)
  · have hleaving := leaving.trans (if_neg hera)
    refine ⟨?_, fun _ => by rw [hqueue]; exact Nat.zero_le _, fun _ => hqueue, fun event h => ?_⟩
    · rw [admitted, hleaving, hqueue, List.map_map, List.append_nil, List.append_nil]
      exact (List.map_id _).symm
    · rw [hleaving] at h
      obtain ⟨_, _, h⟩ := List.mem_map.mp h
      cases h

/-- What a turn of the thread settles. -/
theorem Settles.turn (step : a.turn = some a') : Settles a a' .turn := by
  rcases turn_cases step with ⟨next, rest, event, queue, hframes, hqueue, rfl⟩ |
    ⟨hleaving, hqueue, hera, hquiet⟩
  · have hleaving : ∀ b, a.leaving b .turn = [(event, a.fate)] := fun b => by
      unfold leaving
      rw [hframes, hqueue]
    refine ⟨?_, fun h => ?_, ?_, fun x hx => ?_⟩
    · rw [hleaving, hqueue]
      exact List.append_nil _
    · rw [hqueue] at h
      exact Nat.le_of_succ_le h
    · rintro (h | h)
      · exact absurd h (delays_ne a _)
      · exact absurd rfl h
    · rw [hleaving] at hx
      have hfate : a.fate = .handed := (Prod.mk.inj (List.mem_singleton.mp hx)).2.symm
      unfold fate at hfate
      split at hfate
      · cases hfate
      · rename_i hcallback
        exact ⟨hcallback, if_neg hcallback⟩
  · exact .of_same rfl hleaving hqueue hera hquiet

/-- A call of `native_service_emit_event` changes nothing, or puts its event behind the others. -/
theorem emitPut_cases (a : AppThread) (group tag : UInt16) (value : Option (List UInt8))
    (len : UInt16) :
    (a.Refuses value len ∧ a.emitPut group tag value len = a ∧
        a.admitted (.emitPut group tag value len) = []) ∨
      (¬ a.Refuses value len ∧ ∃ event, a.admitted (.emitPut group tag value len) = [event] ∧
        a.emitPut group tag value len = { a with
          service := { a.service with eventMsgq := a.service.eventMsgq ++ [event] }
          emitting := a.emitting + 1 }) := by
  have hadmitted : a.admitted (.emitPut group tag value len) =
      if (nativeServiceEmitEvent group tag value len a.service).2 = .ok then
        [⟨group, tag, (value.getD []).take len.toNat⟩]
      else [] := rfl
  rw [hadmitted]
  unfold AppThread.emitPut
  rcases emitEvent_cases a group tag value len with ⟨hrefused, e, hres⟩ | ⟨hroom, hres⟩ <;>
    rw [hres]
  · exact .inl ⟨hrefused, rfl, if_neg nofun⟩
  · exact .inr ⟨hroom, _, if_pos rfl, rfl⟩

/-- A step that accepts an event settles nothing. -/
theorem Settles.of_put {e : AppEvent} {event : RuntimeEvent} (admitted : a.admitted e = [event])
    (leaving : a.leaving a' e = []) (queue : a'.service.eventMsgq = a.service.eventMsgq ++ [event])
    (era : a'.service.era = a.service.era) (delays : a'.delays = a.delays)
    (room : a.service.eventMsgq.length < eventQueueDepth) : Settles a a' e where
  queue := by rw [admitted, leaving, queue, List.map_nil, List.nil_append]
  room _ := by
    rw [queue, List.length_append]
    exact room
  empty := by
    rintro (h | h)
    · exact absurd (delays ▸ h) (delays_ne a _)
    · exact absurd era h
  handed event h := by rw [leaving] at h; cases h

/-- What an emit puts into the queue was admitted. -/
theorem Settles.emitPut (a : AppThread) (group tag : UInt16) (value : Option (List UInt8))
    (len : UInt16) : Settles a (a.emitPut group tag value len) (.emitPut group tag value len) := by
  rcases emitPut_cases a group tag value len with ⟨_, hput, hadmitted⟩ |
    ⟨hroom, event, hadmitted, hput⟩ <;> rw [hput]
  · exact .of_same hadmitted (if_pos rfl) rfl rfl fun h => absurd h (delays_ne a _)
  · exact .of_put hadmitted (if_pos rfl) rfl rfl rfl (Nat.not_le.mp fun h => hroom (.inr (.inr h)))

/-- What any step settles. -/
theorem Settles.step {e : AppEvent} (step : AppThread.step cfg e a = some a') :
    Settles a a' e := by
  have still : a'.delays = a.delays → a'.delays = a.delays ++ [.ok] → a.service.eventMsgq = [] :=
    fun hsame h => absurd (hsame ▸ h) (delays_ne a _)
  cases e with
  | emitPut group tag value len =>
    cases step
    exact .emitPut a group tag value len
  | emitPost =>
    have step : a.emitPost = some a' := step
    unfold emitPost at step
    split at step <;> cases step
    exact .of_same rfl (if_pos (by rw [wake_service])) (by rw [wake_service])
      (by rw [wake_service]) (still (wake_delays _))
  | advance ms =>
    cases step
    exact .of_same rfl (if_pos rfl) rfl rfl (still rfl)
  | turn => exact .turn step
  | callDelay delayMs =>
    have step : a.callDelay delayMs = some a' := step
    unfold callDelay at step
    split at step <;> cases step <;> exact .of_same rfl (if_pos rfl) rfl rfl (still rfl)
  | callOnEvent callback =>
    have step : a.callOnEvent callback = some a' := step
    unfold callOnEvent at step
    split at step <;> cases step <;> exact .of_same rfl (if_pos rfl) rfl rfl (still rfl)
  | returnCode =>
    have step : a.returnCode = some a' := step
    unfold returnCode at step
    split at step <;> cases step <;> exact .of_same rfl (if_pos rfl) rfl rfl (still rfl)
  | complete resultAddr result =>
    cases step
    obtain ⟨hera, hqueue, hdelays⟩ := complete_queue cfg a resultAddr result
    exact .of_same rfl (if_pos hera) hqueue hera (still hdelays)
  | requestStop =>
    cases step
    obtain ⟨hera, hqueue, hdelays⟩ := requestStop_queue a
    exact .of_same rfl (if_pos hera) hqueue hera (still hdelays)
  | forceStop =>
    cases step
    exact .of_stop rfl rfl rfl (.inr ⟨Nat.succ_ne_self _, rfl⟩)
  | start loaded =>
    cases step
    refine .of_stop rfl rfl rfl ((start_queue loaded a.service).imp_right fun h => ⟨?_, h.2⟩)
    rw [show (a.restarted (nativeServiceStart loaded a.service).1).service.era = _ from h.1]
    exact Nat.succ_ne_self _
  | resume loaded =>
    cases step
    obtain ⟨hera, hqueue⟩ := resume_queue loaded a.service
    exact .of_stop rfl rfl rfl (.inr ⟨Nat.ne_of_gt hera, hqueue⟩)

end AppThread

namespace Mailbox

variable {cfg : Config} {p p' : Mailbox}

/-- Whatever was accepted has left the queue or waits in it. -/
structure Kept (p : Mailbox) : Prop where
  order : p.accepted = p.settled.map Prod.fst ++ p.app.service.eventMsgq
  room : p.app.service.eventMsgq.length ≤ eventQueueDepth

/-- One step keeps the account of the events. -/
theorem Kept.step {e : AppEvent} (h : p.Kept) (step : Step cfg p e p') : p'.Kept := by
  obtain ⟨app, hstep, rfl⟩ := Option.map_eq_some_iff.mp step
  have settles := AppThread.Settles.step hstep
  refine ⟨?_, settles.room h.room⟩
  calc p.accepted ++ p.app.admitted e
      = p.settled.map Prod.fst ++ (p.app.service.eventMsgq ++ p.app.admitted e) := by
        rw [h.order, List.append_assoc]
    _ = p.settled.map Prod.fst ++
          ((p.app.leaving app e).map Prod.fst ++ app.service.eventMsgq) := by rw [settles.queue]
    _ = (p.settled ++ p.app.leaving app e).map Prod.fst ++ app.service.eventMsgq := by
        rw [List.map_append, List.append_assoc]

/-- So it stands in every reachable state. -/
theorem reachable_kept (h : Run.Reachable Start (Step cfg) p) : p.Kept := by
  refine Run.Reachable.invariant (I := Kept) ?_ (fun _ _ _ => Kept.step) h
  rintro p ⟨⟨hservice, _⟩, haccepted, hsettled⟩
  refine ⟨?_, ?_⟩
  · rw [haccepted, hsettled, hservice]
    rfl
  · rw [hservice]
    exact Nat.zero_le _

/-- In every run the events that were accepted are those that have left the queue, and then those
that wait in it, in one order. An event is refused only if it is malformed or eight of them wait;
one that is handed over is handed to the callback that is registered, which is called at once; when
`native_api_k_delay` returns 0, and when the thread has been stopped, nothing waits. -/
theorem events_in_order {e : AppEvent} (h : Run.Reachable Start (Step cfg) p)
    (step : Step cfg p e p') :
    p'.accepted = p'.settled.map Prod.fst ++ p'.app.service.eventMsgq ∧
      p'.app.service.eventMsgq.length ≤ eventQueueDepth ∧
      (∀ group tag value len, e = .emitPut group tag value len →
        (p'.accepted = p.accepted ↔ runtimeEventValueMax < len.toNat ∨ (len ≠ 0 ∧ value = none) ∨
          p.app.service.eventMsgq.length = eventQueueDepth)) ∧
      (∀ event, (event, .handed) ∈ p'.settled.drop p.settled.length →
        p.app.service.eventCallback ≠ none ∧ p'.app.frames = .callback :: p.app.frames) ∧
      (p'.app.delays = p.app.delays ++ [.ok] ∨ p'.app.service.era ≠ p.app.service.era →
        p'.accepted = p'.settled.map Prod.fst) := by
  have kept := (reachable_kept h).step step
  have room := (reachable_kept h).room
  obtain ⟨app, hstep, rfl⟩ := Option.map_eq_some_iff.mp step
  have settles := AppThread.Settles.step hstep
  refine ⟨kept.order, kept.room, ?_, fun event hevent => ?_, fun hquiet => ?_⟩
  · rintro group tag value len rfl
    rcases AppThread.emitPut_cases p.app group tag value len with ⟨hrefused, _, hadmitted⟩ |
      ⟨htaken, event, hadmitted, _⟩
    · rw [hadmitted, List.append_nil]
      exact ⟨fun _ => hrefused.imp_right (·.imp_right (Nat.le_antisymm room)), fun _ => rfl⟩
    · rw [hadmitted]
      refine ⟨fun hsame => absurd (List.append_right_eq_self.mp hsame) (List.cons_ne_nil _ _), ?_⟩
      exact fun hrefused =>
        absurd (hrefused.imp_right (·.imp_right fun heq => Nat.le_of_eq heq.symm)) htaken
  · rw [List.drop_left] at hevent
    exact settles.handed event hevent
  · rw [kept.order, settles.empty hquiet, List.append_nil]

/-- A build with 8 KiB of application RAM. -/
def smallConfig : Config := ⟨32, true, 0x20035000, 8192⟩

/-- The state after boot. -/
def boot : Mailbox := { app := .boot, accepted := [], settled := [] }

/-- Booting is a start. -/
theorem boot_start : boot.Start := ⟨⟨rfl, rfl, rfl, rfl⟩, rfl, rfl⟩

/-- The application is started, registers a callback, and calls `native_api_k_delay` with an event
waiting. -/
def untilTaken : List AppEvent :=
  [.start ⟨.ok, 0x08020080, fun _ => 0⟩, .turn, .turn, .callOnEvent (some 1), .emitPut 1 7 none 0,
    .callDelay 100]

/-- The event is handed over. -/
theorem event_handed : ∃ p p' event, Run.Reachable Start (Step smallConfig) p ∧
    Step smallConfig p .turn p' ∧ (event, .handed) ∈ p'.settled ∧ event.tag = 7 ∧
      p'.app.frames = .callback :: p.app.frames := by
  obtain ⟨p, run, htest⟩ := Run.exists_of_follow (step smallConfig) (fun _ _ => true)
    untilTaken boot (fun p => p.settled.isEmpty && (step smallConfig .turn p).any fun p' =>
      p'.settled.any fun x => x.2 == .handed && x.1.tag == 7) (by decide +kernel)
  have reach : Run.Reachable Start (Step smallConfig) p :=
    .follow (fun _ _ _ _ h => h) (.start boot_start) run
  obtain ⟨hnil, htest⟩ := Bool.and_eq_true_iff.mp htest
  obtain ⟨p', step, htest⟩ := (Option.any_eq_true _ _).mp htest
  obtain ⟨⟨event, fate⟩, hmem, htest⟩ := List.any_eq_true.mp htest
  obtain ⟨hfate, htag⟩ := Bool.and_eq_true_iff.mp htest
  cases beq_iff_eq.mp hfate
  obtain ⟨_, _, _, handed, _⟩ := events_in_order reach step
  refine ⟨p, p', event, reach, step, hmem, beq_iff_eq.mp htag, (handed event ?_).2⟩
  rw [List.isEmpty_iff.mp hnil]
  exact hmem

/-! ## The end of a delay -/

/-- What happens as long as only the thread runs: it takes its steps, callbacks return, and time
passes. -/
def Alone : AppEvent → Prop
  | .turn | .returnCode | .advance _ => True
  | _ => False

/-- A step with such an event. -/
def AloneStep (cfg : Config) (p : Mailbox) (e : AppEvent) (p' : Mailbox) : Prop :=
  Step cfg p e p' ∧ Alone e

/-- What will have left the queue once everything that waits is taken. -/
def due (p : Mailbox) : List (RuntimeEvent × EventFate) :=
  p.settled ++ p.app.service.eventMsgq.map fun event => (event, p.app.fate)

/-- The thread alone gets from one state to the other, without a return of `native_api_k_delay`. -/
structure Gets (cfg : Config) (p p' : Mailbox) : Prop where
  run : ∃ as, Run.Trace (AloneStep cfg) p as p'
  delays : p'.app.delays = p.app.delays
  patchHandoff : p'.app.service.patchHandoff = p.app.service.patchHandoff
  accepted : p'.accepted = p.accepted
  due : p'.due = p.due

theorem Gets.refl (p : Mailbox) : Gets cfg p p := ⟨⟨[], .nil⟩, rfl, rfl, rfl, rfl⟩

/-- What the thread gets to, on from where it has got. -/
theorem Gets.trans {p₁ p₂ p₃ : Mailbox} (h : Gets cfg p₁ p₂) (h' : Gets cfg p₂ p₃) :
    Gets cfg p₁ p₃ where
  run := by
    obtain ⟨as, run⟩ := h.run
    obtain ⟨as', run'⟩ := h'.run
    exact ⟨as ++ as', run.append run'⟩
  delays := h'.delays.trans h.delays
  patchHandoff := h'.patchHandoff.trans h.patchHandoff
  accepted := h'.accepted.trans h.accepted
  due := h'.due.trans h.due

/-- A step of the thread alone that settles nothing. -/
theorem AloneStep.of_same {e : AppEvent} {app : AppThread} (alone : Alone e)
    (step : AppThread.step cfg e p.app = some app) (admitted : p.app.admitted e = [])
    (leaving : p.app.leaving app e = []) : AloneStep cfg p e { p with app := app } := by
  refine ⟨?_, alone⟩
  unfold Step Mailbox.step
  rw [step, admitted]
  simp only [Option.map_some, leaving, List.append_nil]

/-- A step of the thread that hands over nothing. -/
theorem Gets.of_same {e : AppEvent} {app : AppThread} (alone : Alone e)
    (step : AppThread.step cfg e p.app = some app) (admitted : p.app.admitted e = [])
    (leaving : p.app.leaving app e = []) (delays : app.delays = p.app.delays)
    (patchHandoff : app.service.patchHandoff = p.app.service.patchHandoff)
    (queue : app.service.eventMsgq = p.app.service.eventMsgq)
    (callback : app.service.eventCallback = p.app.service.eventCallback) :
    Gets cfg p { p with app := app } where
  run := ⟨[e], .cons (.of_same alone step admitted leaving) .nil⟩
  delays := delays
  patchHandoff := patchHandoff
  accepted := rfl
  due := by
    unfold Mailbox.due AppThread.fate
    rw [queue, callback]

/-- Time passes. -/
theorem Gets.advance (cfg : Config) (p : Mailbox) (ms : Nat) :
    Gets cfg p { p with app := { p.app with uptime := p.app.uptime + ms } } :=
  .of_same (e := .advance ms) trivial rfl rfl (if_pos rfl) rfl rfl rfl rfl

/-- The thread takes a step that is not about an event. -/
theorem Gets.turn {app : AppThread} {frame : Frame} {rest : List Frame}
    (hframes : p.app.frames = frame :: rest) (hframe : ∀ next, frame ≠ .dispatching next)
    (step : p.app.turn = some app) (delays : app.delays = p.app.delays)
    (patchHandoff : app.service.patchHandoff = p.app.service.patchHandoff)
    (queue : app.service.eventMsgq = p.app.service.eventMsgq)
    (callback : app.service.eventCallback = p.app.service.eventCallback) :
    Gets cfg p { p with app := app } := by
  refine .of_same (e := .turn) trivial step rfl ?_ delays patchHandoff queue callback
  unfold AppThread.leaving
  rw [hframes]
  cases frame with
  | dispatching next => exact absurd rfl (hframe next)
  | _ => rfl

/-- The first event is taken, and the callback, if there is one, returns. -/
theorem Gets.take (cfg : Config) {next : AfterDispatch} {rest : List Frame} {event : RuntimeEvent}
    {queue : List RuntimeEvent} (hframes : p.app.frames = .dispatching next :: rest)
    (hqueue : p.app.service.eventMsgq = event :: queue) :
    ∃ p', Gets cfg p p' ∧ p'.app.frames = p.app.frames ∧ p'.app.uptime = p.app.uptime ∧
      p'.app.service.eventMsgq = queue := by
  let taken : AppThread := { p.app with
    service := { p.app.service with eventMsgq := queue }
    frames := if p.app.service.eventCallback = none then p.app.frames
      else .callback :: p.app.frames }
  have hturn : p.app.turn = some taken := by
    unfold AppThread.turn
    rw [hframes]
    dsimp only
    rw [hqueue, ← hframes]
  have hleaving : p.app.leaving taken .turn = [(event, p.app.fate)] := by
    unfold AppThread.leaving
    rw [hframes, hqueue]
  let p₁ : Mailbox := { p with app := taken, settled := p.settled ++ [(event, p.app.fate)] }
  have gets : Gets cfg p p₁ := by
    refine ⟨⟨[.turn], .cons ⟨?_, trivial⟩ .nil⟩, rfl, rfl, rfl, ?_⟩
    · unfold Step Mailbox.step
      rw [show AppThread.step cfg .turn p.app = some taken from hturn]
      simp only [Option.map_some, hleaving, AppThread.admitted, List.append_nil, p₁]
    · unfold Mailbox.due
      rw [hqueue]
      exact List.append_assoc _ _ _
  by_cases hcallback : p.app.service.eventCallback = none
  · exact ⟨p₁, gets, if_pos hcallback, rfl, rfl⟩
  · have hcalled : taken.frames = .callback :: p.app.frames := if_neg hcallback
    have hreturn : AppThread.step cfg .returnCode p₁.app =
        some { taken with frames := p.app.frames } := by
      show taken.returnCode = _
      unfold AppThread.returnCode
      rw [hcalled]
    exact ⟨_, gets.trans (.of_same (e := .returnCode) trivial hreturn rfl (if_pos rfl) rfl rfl rfl
      rfl), rfl, rfl, rfl⟩

/-- Everything that waits is taken. -/
theorem Gets.drain (cfg : Config) {next : AfterDispatch} {rest : List Frame}
    (queue : List RuntimeEvent) (hframes : p.app.frames = .dispatching next :: rest)
    (hqueue : p.app.service.eventMsgq = queue) :
    ∃ p', Gets cfg p p' ∧ p'.app.frames = p.app.frames ∧ p'.app.uptime = p.app.uptime ∧
      p'.app.service.eventMsgq = [] := by
  induction queue generalizing p with
  | nil => exact ⟨p, .refl p, rfl, rfl, hqueue⟩
  | cons event queue ih =>
    obtain ⟨p₁, gets, hframes₁, hnow₁, hqueue₁⟩ := Gets.take cfg hframes hqueue
    obtain ⟨p₂, gets₂, hframes₂, hnow₂, hqueue₂⟩ := ih (hframes₁.trans hframes) hqueue₁
    exact ⟨p₂, gets.trans gets₂, hframes₂.trans hframes₁, hnow₂.trans hnow₁, hqueue₂⟩

/-- The thread alone gets to these frames at this time. -/
def Comes (cfg : Config) (p : Mailbox) (frames : List Frame) (now : Nat) : Prop :=
  ∃ p', Gets cfg p p' ∧ p'.app.frames = frames ∧ p'.app.uptime = now

/-- Where the thread comes to from a later state it comes to from this one. -/
theorem Comes.of_gets {frames : List Frame} {now : Nat} (gets : Gets cfg p p')
    (comes : Comes cfg p' frames now) : Comes cfg p frames now := by
  obtain ⟨p'', gets', hframes, hnow⟩ := comes
  exact ⟨p'', gets.trans gets', hframes, hnow⟩

section Frames

variable {rest : List Frame} {deadline : Nat}

/-- A wait whose time is up ends. -/
theorem Gets.wake {wakeAt : Nat} (hframes : p.app.frames = .blocked deadline wakeAt :: rest)
    (late : wakeAt ≤ p.app.uptime) :
    Gets cfg p { p with app := { p.app with frames := .woken deadline false :: rest } } := by
  refine .turn hframes nofun ?_ rfl rfl rfl rfl
  unfold AppThread.turn
  rw [hframes]
  exact if_neg (Nat.not_lt.mpr late)

/-- Behind a wait that ran out the thread looks at the clock. -/
theorem Gets.check (hframes : p.app.frames = .woken deadline false :: rest) :
    Gets cfg p { p with app := { p.app with frames := .checking deadline :: rest } } := by
  refine .turn hframes nofun ?_ rfl rfl rfl rfl
  unfold AppThread.turn
  rw [hframes]
  rfl

/-- A wait that nothing wakes ends in time. -/
theorem comes_of_blocked (cfg : Config) {wakeAt : Nat}
    (hframes : p.app.frames = .blocked deadline wakeAt :: rest) :
    Comes cfg p (.checking deadline :: rest) (max p.app.uptime wakeAt) := by
  have hnow : p.app.uptime + (wakeAt - p.app.uptime) = max p.app.uptime wakeAt := by omega
  have woken := (Gets.advance cfg p (wakeAt - p.app.uptime)).trans
    (.wake (by exact hframes) (hnow ▸ Nat.le_max_right _ _))
  exact ⟨_, woken.trans (.check rfl), rfl, hnow⟩

/-- A thread that waits gets to the check when its time has run out. -/
theorem comes_of_waiting (cfg : Config) {remaining : Nat}
    (hframes : p.app.frames = .waiting deadline remaining :: rest) :
    Comes cfg p (.checking deadline :: rest) (p.app.uptime + remaining) := by
  have step : p.app.turn = some { p.app with
      service := { p.app.service with wakeIrq := false, wakeProcess := false }
      frames := .blocked deadline (p.app.uptime + remaining) :: rest } := by
    unfold AppThread.turn
    rw [hframes]
  refine .of_gets (.turn hframes nofun step rfl rfl rfl rfl) ?_
  obtain ⟨p', gets, hframes', hnow⟩ := comes_of_blocked cfg
    (p := { p with app := { p.app with
      service := { p.app.service with wakeIrq := false, wakeProcess := false }
      frames := .blocked deadline (p.app.uptime + remaining) :: rest } }) rfl
  exact ⟨p', gets, hframes', hnow.trans (Nat.max_eq_right (Nat.le_add_right _ _))⟩

/-- The delay goes on if the time has not come, and else ends. -/
theorem comes_of_guarding (cfg : Config) {remaining : Int} (go : p.app.service.patchHandoff = false)
    (hframes : p.app.frames = .guarding deadline remaining :: rest) :
    (remaining ≤ 0 → Comes cfg p (.dispatching .leaveDelay :: rest) p.app.uptime) ∧
      (¬ remaining ≤ 0 →
        Comes cfg p (.checking deadline :: rest) (p.app.uptime + remaining.toNat)) := by
  have hturn : p.app.turn =
      if remaining ≤ 0 then some { p.app with frames := .dispatching .leaveDelay :: rest }
      else some { p.app with frames := .waiting deadline remaining.toNat :: rest } := by
    unfold AppThread.turn
    rw [hframes]
    dsimp only
    rw [go]
    rfl
  constructor
  · intro hover
    rw [if_pos hover] at hturn
    exact ⟨_, .turn hframes nofun hturn rfl rfl rfl rfl, rfl, rfl⟩
  · intro hover
    rw [if_neg hover] at hturn
    exact .of_gets (.turn hframes nofun hturn rfl rfl rfl rfl) (comes_of_waiting cfg rfl)

/-- From the check it gets to the last dispatch, at the deadline or now if that is over. -/
theorem comes_of_checking (cfg : Config) (go : p.app.service.patchHandoff = false)
    (hframes : p.app.frames = .checking deadline :: rest) :
    Comes cfg p (.dispatching .leaveDelay :: rest) (max p.app.uptime deadline) := by
  have begins : ∀ q : Mailbox, q.app.frames = .checking deadline :: rest →
      Gets cfg q { q with app := { q.app with
        frames := .guarding deadline (deadline - q.app.uptime) :: rest } } := by
    intro q hq
    refine .turn hq nofun ?_ rfl rfl rfl rfl
    unfold AppThread.turn
    rw [hq]
  have ends : ∀ q : Mailbox, q.app.service.patchHandoff = false →
      q.app.frames = .checking deadline :: rest → deadline ≤ q.app.uptime →
      Comes cfg q (.dispatching .leaveDelay :: rest) q.app.uptime := by
    intro q hgo hq hlate
    have guarding := comes_of_guarding (p := { q with app := { q.app with
      frames := .guarding deadline (deadline - q.app.uptime) :: rest } }) cfg hgo rfl
    exact .of_gets (begins q hq) (guarding.1 (by omega))
  by_cases hlate : deadline ≤ p.app.uptime
  · rw [Nat.max_eq_left hlate]
    exact ends p go hframes hlate
  · have guarding := comes_of_guarding (p := { p with app := { p.app with
      frames := .guarding deadline (deadline - p.app.uptime) :: rest } }) cfg go rfl
    obtain ⟨p', gets, hframes', hnow⟩ := Comes.of_gets (begins p hframes) (guarding.2 (by omega))
    have hnow : p'.app.uptime = deadline := by
      rw [hnow]
      show p.app.uptime + (((deadline : Int) - p.app.uptime).toNat) = deadline
      omega
    rw [Nat.max_eq_right (Nat.le_of_not_le hlate), ← hnow]
    exact .of_gets gets (ends p' (gets.patchHandoff.trans go) hframes' (Nat.le_of_eq hnow.symm))

/-- Everything that waits is taken before the time is looked at. -/
theorem comes_of_entering (cfg : Config)
    (hframes : p.app.frames = .dispatching (.enterDelay deadline) :: rest) :
    Comes cfg p (.checking deadline :: rest) p.app.uptime := by
  obtain ⟨p', gets, hframes', hnow, hqueue⟩ := Gets.drain cfg _ hframes rfl
  have hframes' := hframes'.trans hframes
  have step : p'.app.turn = some { p'.app with frames := .checking deadline :: rest } := by
    unfold AppThread.turn
    rw [hframes']
    dsimp only
    rw [hqueue]
  refine .of_gets gets ⟨_, .of_same (e := .turn) trivial step rfl ?_ rfl rfl rfl rfl, rfl, hnow⟩
  unfold AppThread.leaving
  rw [hframes', hqueue]

end Frames

/-- When a call of `native_api_k_delay` ends that nothing wakes and no stop breaks off. -/
def delayEnd (now : Nat) : Frame → Option Nat
  | .dispatching (.enterDelay deadline) | .checking deadline | .woken deadline _ =>
    some (max now deadline)
  | .dispatching .leaveDelay => some now
  | .guarding deadline remaining =>
    some (if remaining ≤ 0 then now else max (now + remaining.toNat) deadline)
  | .waiting deadline remaining => some (max (now + remaining) deadline)
  | .blocked deadline wakeAt => some (max (max now wakeAt) deadline)
  | _ => none

/-- A delay comes to its end. -/
theorem comes_of_delay (cfg : Config) {frame : Frame} {rest : List Frame} {done : Nat}
    (go : p.app.service.patchHandoff = false) (hframes : p.app.frames = frame :: rest)
    (hdone : delayEnd p.app.uptime frame = some done) :
    Comes cfg p (.dispatching .leaveDelay :: rest) done := by
  have after : ∀ {deadline now}, Comes cfg p (.checking deadline :: rest) now →
      Comes cfg p (.dispatching .leaveDelay :: rest) (max now deadline) := by
    rintro deadline now ⟨p', gets, hframes', rfl⟩
    exact .of_gets gets (comes_of_checking cfg (gets.patchHandoff.trans go) hframes')
  cases frame with
  | dispatching next =>
    cases next with
    | enterDelay deadline =>
      cases hdone
      exact after (comes_of_entering cfg hframes)
    | leaveDelay =>
      cases hdone
      exact ⟨p, .refl p, hframes, rfl⟩
    | enterApplication => cases hdone
    | leaveApplication => cases hdone
  | checking deadline =>
    cases hdone
    exact comes_of_checking cfg go hframes
  | guarding deadline remaining =>
    cases hdone
    obtain ⟨leaves, goes_on⟩ := comes_of_guarding cfg go hframes
    split
    · exact leaves (by assumption)
    · exact after (goes_on (by assumption))
  | waiting deadline remaining =>
    cases hdone
    exact after (comes_of_waiting cfg hframes)
  | blocked deadline wakeAt =>
    cases hdone
    exact after (comes_of_blocked cfg hframes)
  | woken deadline irq =>
    cases hdone
    have step : p.app.turn = some { p.app with
        frames := (if irq then .dispatching (.enterDelay deadline) else .checking deadline) ::
          rest } := by
      unfold AppThread.turn
      rw [hframes]
    refine after (.of_gets (.turn hframes nofun step rfl rfl rfl rfl) ?_)
    cases irq with
    | true => exact comes_of_entering cfg rfl
    | false => exact ⟨_, .refl _, rfl, rfl⟩
  | _ => cases hdone

/-- From any state in which the application is in `native_api_k_delay`, with no stop requested: if
nothing else happens, the call returns 0 when the delay has run out, and then every event that
waited has been taken, in order. -/
theorem delivered_in_delay (cfg : Config) {frame : Frame} {rest : List Frame} {done : Nat}
    (go : p.app.service.patchHandoff = false) (hframes : p.app.frames = frame :: rest)
    (hdone : delayEnd p.app.uptime frame = some done) :
    ∃ as p', Run.Trace (AloneStep cfg) p as p' ∧ p'.app.frames = rest ∧
      p'.app.delays = p.app.delays ++ [.ok] ∧ p'.app.uptime = done ∧ p'.accepted = p.accepted ∧
      p'.settled = p.settled ++ p.app.service.eventMsgq.map fun event => (event, p.app.fate) := by
  obtain ⟨p₁, gets₁, hframes₁, hnow₁⟩ := comes_of_delay cfg go hframes hdone
  obtain ⟨p₂, gets₂, hframes₂, hnow₂, hqueue₂⟩ := Gets.drain cfg _ hframes₁ rfl
  have gets := gets₁.trans gets₂
  have hframes₂ := hframes₂.trans hframes₁
  have step : p₂.app.turn =
      some { p₂.app with frames := rest, delays := p₂.app.delays ++ [.ok] } := by
    unfold AppThread.turn
    rw [hframes₂]
    dsimp only
    rw [hqueue₂]
  have hleaving : ∀ app, p₂.app.leaving app .turn = [] := by
    intro app
    unfold AppThread.leaving
    rw [hframes₂, hqueue₂]
  have last : AloneStep cfg p₂ .turn { p₂ with
      app := { p₂.app with frames := rest, delays := p₂.app.delays ++ [.ok] } } :=
    .of_same trivial step rfl (hleaving _)
  obtain ⟨as, run⟩ := gets.run
  have run := run.append (.cons last .nil)
  refine ⟨_, _, run, rfl, ?_, hnow₂.trans hnow₁, gets.accepted, ?_⟩
  · show p₂.app.delays ++ [.ok] = _
    rw [gets.delays]
  · have hdue := gets.due
    unfold due at hdue
    rw [hqueue₂] at hdue
    exact (List.append_nil _).symm.trans hdue

/-- An event that is slept on is handed over when the delay ends. -/
theorem late_event_handed : ∃ p as p', Run.Reachable Start (Step smallConfig) p ∧
    p.app.Oversleeps ∧ Run.Trace (AloneStep smallConfig) p as p' ∧
      p'.settled = p.settled ++ p.app.service.eventMsgq.map fun event => (event, .handed) := by
  obtain ⟨p, run, htest⟩ := Run.exists_of_follow (step smallConfig) (fun _ _ => true)
    ([.start ⟨.ok, 0x08020080, fun _ => 0⟩, .turn, .turn, .callOnEvent (some 1), .callDelay 100,
      .turn, .turn, .turn, .emitPut 1 7 none 0, .emitPost, .turn]) boot
    (fun p => p.app.oversleeps && !p.app.service.patchHandoff && p.app.fate == .handed)
    (by decide +kernel)
  have reach : Run.Reachable Start (Step smallConfig) p :=
    .follow (fun _ _ _ _ h => h) (.start boot_start) run
  obtain ⟨htest, hfate⟩ := Bool.and_eq_true_iff.mp htest
  obtain ⟨hsleeps, hgo⟩ := Bool.and_eq_true_iff.mp htest
  have sleeps := AppThread.Oversleeps.of_test hsleeps
  obtain ⟨deadline, wakeAt, rest, hframes⟩ := sleeps.1
  obtain ⟨as, p', run, _, _, _, _, hsettled⟩ := delivered_in_delay smallConfig
    ((Bool.not_eq_true' _).mp hgo) hframes rfl
  rw [beq_iff_eq.mp hfate] at hsettled
  exact ⟨p, as, p', reach, sleeps, run, hsettled⟩

end Mailbox

end Rtbus.Native
