import Rtbus.Native.Wakeup

/-!
# The DFU command

`@RTBUS:DFU=APP` stops the application, receives an image and starts what is in the slot then.
`native_service_stop_for_upgrade` announces the stop in `native_patch_handoff` and waits until no
post of the application is in progress. If that takes too long it fails, and the handler undoes
what it has done itself: input and console. The announcement stays.
-/

namespace Rtbus.Cli

open Rtbus.Native

/-- The command line and the native service. -/
structure CommandLine where
  inputEnabled : Bool
  native : Service

/-- `native_service_suppress_console`. -/
def nativeServiceSuppressConsole (suppress : Bool) (s : Service) : Service :=
  { s with consoleSuppressed := suppress }

/-- What the handler meets: the readings of the stop, whether `READY` was written, what
`rtbus_ymodem_recv` returns, and how the loader ends. -/
structure DfuRun where
  turns : List (Nat × Bool)
  readyWritten : Bool
  received : Ret
  loaded : Loaded

/-- The argument `APP`. -/
def dfuTarget : List UInt8 := [65, 80, 80]

/-- `rtbus_cli_dfu_handler`; `none` if the stop has not ended with the given readings. -/
def rtbusCliDfuHandler (args : List UInt8) (run : DfuRun) (s : CommandLine) : Option (CommandLine × Ret) :=
  if args ≠ dfuTarget then some (s, .err .EINVAL)
  else
    let native := nativeServiceSuppressConsole true s.native
    match nativeServiceHandoffRamForPatch run.turns native with
    | none => none
    | some (native, .err e) => some (⟨true, nativeServiceSuppressConsole false native⟩, .err e)
    | some (native, .ok) =>
      let resumed := nativeServiceResumeAfterUpgrade run.loaded native
      if run.readyWritten then some (⟨true, resumed⟩, run.received)
      else some (⟨true, nativeServiceSuppressConsole false resumed⟩, .err Errno.EIO)

/-- The application goes on as before the command: no stop is announced, the console is not
suppressed, its thread, entry, callback and queues are the same, and the thread neither parks nor
gets `-EINTR` from a delay. -/
structure LeftRunning (s s' : Service) : Prop where
  handoff : s'.patchHandoff = false
  console : s'.consoleSuppressed = false
  thread : s'.threadId = s.threadId
  entry : s'.entry = s.entry
  callback : s'.eventCallback = s.eventCallback
  posts : s'.postMsgq = s.postMsgq
  events : s'.eventMsgq = s.eventMsgq
  parks : ∀ a a' : AppThread, a.service = s' → a.turn = some a' →
    ∀ rest, a'.frames = .parked :: rest → a.frames = .parked :: rest
  interrupted : ∀ a a' : AppThread, a.service = s' → a.turn = some a' →
    a'.delays ≠ a.delays ++ [.err .EINTR]

/-! ## What a failed stop leaves -/

/-- A stop that fails has announced itself, and nothing else. -/
theorem handoff_err {turns : List (Nat × Bool)} {s s' : Service} {e : Errno}
    (h : nativeServiceHandoffRamForPatch turns s = some (s', .err e)) :
    s' = nativeServiceRequestStopForUpgrade s ∧ e = .ETIMEDOUT ∧ s.threadId = true := by
  rcases handoff_cases h with ⟨_, hdone⟩ | ⟨running, hdone | hdone⟩
  · cases hdone
  · cases hdone
  · cases hdone
    exact ⟨rfl, rfl, running⟩

/-- The handler after a stop that has failed. -/
theorem handler_of_failed_stop {run : DfuRun} {s : CommandLine} {native : Service} {e : Errno}
    (stop : nativeServiceHandoffRamForPatch run.turns
      (nativeServiceSuppressConsole true s.native) = some (native, .err e)) :
    rtbusCliDfuHandler dfuTarget run s =
      some (⟨true, { s.native with
        patchHandoff := true, consoleSuppressed := false, wakeProcess := true }⟩,
        .err .ETIMEDOUT) := by
  obtain ⟨rfl, rfl, _⟩ := handoff_err stop
  unfold rtbusCliDfuHandler
  rw [if_neg (fun h => h rfl)]
  dsimp only
  rw [stop]
  rfl

/-- Once a stop is announced, a thread at the head of its loop parks. -/
theorem parks_of_handoff {a : AppThread} {rest : List Frame} (h : a.service.patchHandoff = true)
    (frames : a.frames = .head :: rest) : a.turn = some { a with frames := .parked :: rest } := by
  unfold AppThread.turn
  rw [frames]
  dsimp only
  rw [if_pos h]

/-- Once a stop is announced, every delay ends with `-EINTR` when it next looks. -/
theorem interrupted_of_handoff {a : AppThread} {deadline : Nat} {remaining : Int}
    {rest : List Frame} (h : a.service.patchHandoff = true)
    (frames : a.frames = .guarding deadline remaining :: rest) :
    a.turn = some { a with frames := rest, delays := a.delays ++ [.err .EINTR] } := by
  unfold AppThread.turn
  rw [frames]
  dsimp only
  rw [if_pos h]

theorem emitEvent_handoff (group tag : UInt16) (value : Option (List UInt8)) (len : UInt16)
    (s : Service) :
    (nativeServiceEmitEvent group tag value len s).1.patchHandoff = s.patchHandoff := by
  unfold nativeServiceEmitEvent
  split
  · rfl
  · split
    · rfl
    · split <;> rfl

theorem completeResult_handoff (cfg : Config) (resultAddr result : UInt32) (s : Service) :
    (nativeServiceCompleteResult cfg resultAddr result s).1.patchHandoff = s.patchHandoff := by
  unfold nativeServiceCompleteResult
  split
  · rfl
  · split <;> rfl

theorem wake_service (a : AppThread) : a.wake.service = a.service := by
  unfold AppThread.wake
  split <;> rfl

theorem requestStop_service (a : AppThread) :
    a.requestStop.service = nativeServiceRequestStopForUpgrade a.service := by
  have hwake := wake_service { a with service := nativeServiceRequestStopForUpgrade a.service }
  unfold AppThread.requestStop
  dsimp only
  split
  · exact hwake
  · exact hwake

/-- The thread itself never touches the announcement. -/
theorem turn_handoff {a a' : AppThread} (step : a.turn = some a') :
    a'.service.patchHandoff = a.service.patchHandoff := by
  unfold AppThread.turn at step
  split at step
  case h_1 => cases step; rfl
  case h_2 => split at step <;> cases step <;> rfl
  case h_3 => cases step; rfl
  case h_4 =>
    split at step
    · cases step; rfl
    · split at step <;> cases step <;> rfl
  case h_5 => cases step; rfl
  case h_6 => split at step <;> cases step; rfl
  case h_7 => cases step; rfl
  all_goals cases step

/-- Only a resume takes the announcement back. -/
theorem handoff_stays {cfg : Config} {a a' : AppThread} {e : AppEvent}
    (h : a.service.patchHandoff = true) (other : ∀ loaded, e ≠ .resume loaded)
    (step : a.Step cfg e a') : a'.service.patchHandoff = true := by
  cases e with
  | emitPut group tag value len =>
    cases step
    have hput := emitEvent_handoff group tag value len a.service
    unfold AppThread.emitPut
    split
    · rename_i service hok
      rw [hok] at hput
      exact hput.trans h
    · exact h
  | emitPost =>
    have step : a.emitPost = some a' := step
    unfold AppThread.emitPost at step
    split at step
    · cases step
    · cases step
      rw [wake_service]
      exact h
  | advance ms =>
    cases step
    exact h
  | turn => exact (turn_handoff step).trans h
  | callDelay delayMs =>
    have step : a.callDelay delayMs = some a' := step
    unfold AppThread.callDelay at step
    split at step <;> cases step <;> exact h
  | callOnEvent callback =>
    have step : a.callOnEvent callback = some a' := step
    unfold AppThread.callOnEvent at step
    split at step <;> cases step <;> exact h
  | returnCode =>
    have step : a.returnCode = some a' := step
    unfold AppThread.returnCode at step
    split at step <;> cases step <;> exact h
  | complete resultAddr result =>
    cases step
    have hdone := completeResult_handoff cfg resultAddr result a.service
    unfold AppThread.complete
    split
    · rename_i service hok
      rw [hok] at hdone
      split
      · exact h
      · rw [wake_service]
        exact hdone.trans h
    · exact h
  | requestStop =>
    cases step
    rw [requestStop_service]
    rfl
  | forceStop =>
    cases step
    exact h
  | start loaded =>
    cases step
    show (nativeServiceStart loaded a.service).1.patchHandoff = true
    unfold nativeServiceStart
    rw [if_pos h]
    exact h
  | resume loaded => exact absurd rfl (other loaded)

/-- Whatever the state and the readings of `native_api_busy`: when the stop fails, the handler does
not leave the application running. The stop stays announced, so that the thread parks at the head of
its loop and its delays end with `-EINTR`, until a resume. -/
theorem failed_stop_freezes (cfg : Config) (run : DfuRun) (s : CommandLine) {native : Service}
    {e : Errno} (stop : nativeServiceHandoffRamForPatch run.turns
      (nativeServiceSuppressConsole true s.native) = some (native, .err e)) :
    ∃ s' ret, rtbusCliDfuHandler dfuTarget run s = some (s', ret) ∧
      ¬ LeftRunning s.native s'.native ∧ s'.native.patchHandoff = true ∧
      ∀ a a' : AppThread, Run.Reachable (fun b => b.service = s'.native)
          (fun b e b' => b.Step cfg e b' ∧ ∀ loaded, e ≠ .resume loaded) a → a.turn = some a' →
        (∀ rest, a.frames = .head :: rest → a'.frames = .parked :: rest) ∧
        (∀ deadline remaining rest, a.frames = .guarding deadline remaining :: rest →
          a'.frames = rest ∧ a'.delays = a.delays ++ [.err .EINTR]) := by
  refine ⟨_, _, handler_of_failed_stop stop, fun left => ?_, rfl, fun a a' reach turn => ?_⟩
  · cases left.handoff
  · have announced : a.service.patchHandoff = true := by
      refine Run.Reachable.invariant (I := fun b => b.service.patchHandoff = true) ?_ ?_ reach
      · rintro b hb
        rw [hb]
      · rintro b e b' hb ⟨step, other⟩
        exact handoff_stays hb other step
    constructor
    · intro rest frames
      rw [parks_of_handoff announced frames] at turn
      cases turn
      rfl
    · intro deadline remaining rest frames
      rw [interrupted_of_handoff announced frames] at turn
      cases turn
      exact ⟨rfl, rfl⟩

/-- A post that is in progress at the only reading before the deadline makes the stop fail. -/
theorem failed_stop_sample : ∃ s' ret,
    rtbusCliDfuHandler dfuTarget ⟨[(1, true)], true, .ok, ⟨.ok, 0x08020080, fun _ => 0⟩⟩
        ⟨true, { Service.boot with threadId := true }⟩ = some (s', ret) ∧
      ¬ LeftRunning { Service.boot with threadId := true } s'.native := by
  obtain ⟨s', ret, handler, frozen, _⟩ := failed_stop_freezes ⟨32, true, 0x20035000, 8192⟩
    ⟨[(1, true)], true, .ok, ⟨.ok, 0x08020080, fun _ => 0⟩⟩
    ⟨true, { Service.boot with threadId := true }⟩ (e := .ETIMEDOUT) rfl
  exact ⟨s', ret, handler, frozen⟩

/-- After a stop that has failed, `native_patch_handoff` is still set. -/
theorem failed_stop_not_undone :
    ¬ ∀ (run : DfuRun) (s s' : CommandLine) (native : Service) (e : Errno) (ret : Ret),
      nativeServiceHandoffRamForPatch run.turns (nativeServiceSuppressConsole true s.native) =
        some (native, .err e) →
      rtbusCliDfuHandler dfuTarget run s = some (s', ret) → LeftRunning s.native s'.native := by
  intro always
  have left := always ⟨[(1, true)], true, .ok, ⟨.ok, 0x08020080, fun _ => 0⟩⟩
    ⟨true, { Service.boot with threadId := true }⟩ _ _ .ETIMEDOUT _ rfl rfl
  cases left.handoff

end Rtbus.Cli
