import Rtbus.Native.Service

/-!
# The application thread

`native_thread_entry` runs the component's entry over and over, unless an upgrade holds it. The
application reads its events in `native_api_k_delay`: it empties `native_event_msgq` and then waits
on `native_wake_event`, which every producer posts after it has put its event.

A producer takes two steps, the put and the post, and so does the application between the last look
at the queue and the wait. `AppThread` cuts both threads there. The frames are the calls the thread
is in, the innermost first: the event callback is application code again, and may itself delay.

Of Zephyr: `k_event_wait` with `reset` clears the events of the object before it waits, and a post
wakes a thread that waits for one of its bits.
-/

namespace Rtbus.Native

/-- `NATIVE_EVENT_QUEUE_DEPTH`. -/
def eventQueueDepth : Nat := 8

/-- `RUNTIME_EVENT_VALUE_MAX`. -/
def runtimeEventValueMax : Nat := 256

/-- Where `native_service_dispatch_events` returns to: before or behind the call of `native_entry`,
or at the start or the end of `native_api_k_delay`. -/
inductive AfterDispatch
  | enterApplication
  | leaveApplication
  | enterDelay (deadline : Nat)
  | leaveDelay
  deriving DecidableEq

/-- A call that the thread is in. `head` is the loop of `native_thread_entry` and `parked` its
`k_sleep`; `native` and `callback` are application code. The others are `native_api_k_delay`: it
reads the clock, then `native_patch_handoff`, then calls `k_event_wait`, in which it is blocked. -/
inductive Frame
  | head
  | parked
  | native
  | callback
  | dispatching (next : AfterDispatch)
  | checking (deadline : Nat)
  | guarding (deadline : Nat) (remaining : Int)
  | waiting (deadline remaining : Nat)
  | blocked (deadline wakeAt : Nat)
  | woken (deadline : Nat) (irq : Bool)
  deriving DecidableEq

/-- The application thread with the statics it shares with the runtime. `emitting` counts the calls
of `native_service_emit_event` between their put and their post; `delays` is history, what
`native_api_k_delay` has returned. -/
structure AppThread where
  service : Service
  uptime : Nat
  frames : List Frame
  emitting : Nat
  delays : List Ret

/-- `native_service_emit_event` up to the result of `k_msgq_put`. -/
def nativeServiceEmitEvent (group tag : UInt16) (value : Option (List UInt8)) (len : UInt16)
    (s : Service) : Service × Ret :=
  if len.toNat > runtimeEventValueMax then (s, .err .EMSGSIZE)
  else if len ≠ 0 ∧ value = none then (s, .err .EINVAL)
  else if s.eventMsgq.length ≥ eventQueueDepth then (s, .err .ENOMSG)
  else
    ({ s with eventMsgq := s.eventMsgq ++ [⟨group, tag, (value.getD []).take len.toNat⟩] }, .ok)

/-- What may happen next, in any thread. -/
inductive AppEvent
  | emitPut (group tag : UInt16) (value : Option (List UInt8)) (len : UInt16)
  | emitPost
  | advance (ms : Nat)
  | turn
  | callDelay (delayMs : UInt32)
  | callOnEvent (callback : Option Nat)
  | returnCode
  | complete (resultAddr result : UInt32)
  | requestStop
  | forceStop
  | start (loaded : Loaded)
  | resume (loaded : Loaded)

namespace AppThread

variable (cfg : Config) (a : AppThread)

/-- A post of `NATIVE_WAKE_IRQ` or `NATIVE_WAKE_PROCESS` to the thread, once the bit is set: if it is
blocked, it is woken with the bits that are set. -/
def wake : AppThread :=
  match a.frames with
  | .blocked deadline _ :: rest =>
    { a with frames := .woken deadline a.service.wakeIrq :: rest }
  | _ => a

/-- The first part of `native_service_emit_event`. -/
def emitPut (group tag : UInt16) (value : Option (List UInt8)) (len : UInt16) : AppThread :=
  match nativeServiceEmitEvent group tag value len a.service with
  | (service, .ok) => { a with service := service, emitting := a.emitting + 1 }
  | (_, .err _) => a

/-- The second part: the post. -/
def emitPost : Option AppThread :=
  if a.emitting = 0 then none
  else
    some (wake { a with
      service := { a.service with wakeIrq := true }, emitting := a.emitting - 1 })

/-- The next step of the thread, if it is not for the application to choose. -/
def turn : Option AppThread :=
  match a.frames with
  | .head :: rest =>
    some { a with
      frames := (if a.service.patchHandoff then .parked else .dispatching .enterApplication) :: rest }
  | .dispatching next :: rest =>
    match a.service.eventMsgq, next with
    | _ :: queue, _ =>
      some { a with
        service := { a.service with eventMsgq := queue }
        frames := if a.service.eventCallback = none then a.frames else .callback :: a.frames }
    | [], .enterApplication => some { a with frames := .native :: rest }
    | [], .leaveApplication => some { a with frames := .head :: rest }
    | [], .enterDelay deadline => some { a with frames := .checking deadline :: rest }
    | [], .leaveDelay => some { a with frames := rest, delays := a.delays ++ [.ok] }
  | .checking deadline :: rest =>
    some { a with frames := .guarding deadline (deadline - a.uptime) :: rest }
  | .guarding deadline remaining :: rest =>
    if a.service.patchHandoff then
      some { a with frames := rest, delays := a.delays ++ [.err .EINTR] }
    else if remaining ≤ 0 then some { a with frames := .dispatching .leaveDelay :: rest }
    else some { a with frames := .waiting deadline remaining.toNat :: rest }
  | .waiting deadline remaining :: rest =>
    -- `k_event_wait` resets the events before it blocks
    some { a with
      service := { a.service with wakeIrq := false, wakeProcess := false }
      frames := .blocked deadline (a.uptime + remaining) :: rest }
  | .blocked deadline wakeAt :: rest =>
    if a.uptime < wakeAt then none else some { a with frames := .woken deadline false :: rest }
  | .woken deadline irq :: rest =>
    some { a with
      frames := (if irq then .dispatching (.enterDelay deadline) else .checking deadline) :: rest }
  | .parked :: _ | .native :: _ | .callback :: _ | [] => none

/-- The application calls `native_api_k_delay`. -/
def callDelay (delayMs : UInt32) : Option AppThread :=
  match a.frames with
  | .native :: _ | .callback :: _ =>
    some { a with
      frames := .dispatching (.enterDelay (a.uptime + delayMs.toNat)) :: a.frames }
  | _ => none

/-- The application calls `native_api_on_event`. -/
def callOnEvent (callback : Option Nat) : Option AppThread :=
  match a.frames with
  | .native :: _ | .callback :: _ =>
    some { a with service := { a.service with eventCallback := callback } }
  | _ => none

/-- The entry or the callback returns. -/
def returnCode : Option AppThread :=
  match a.frames with
  | .native :: rest => some { a with frames := .dispatching .leaveApplication :: rest }
  | .callback :: rest => some { a with frames := rest }
  | _ => none

/-- A task completes a request. -/
def complete (resultAddr result : UInt32) : AppThread :=
  match nativeServiceCompleteResult cfg resultAddr result a.service with
  | (service, .ok) =>
    if resultAddr = 0 then a else wake { a with service := service }
  | (_, .err _) => a

/-- `native_service_request_stop_for_upgrade`; a parked thread is woken by `k_wakeup`. -/
def requestStop : AppThread :=
  let a := wake { a with service := nativeServiceRequestStopForUpgrade a.service }
  match a.frames with
  | .parked :: rest => { a with frames := .head :: rest }
  | _ => a

/-- The thread after the service has changed: none if there is no thread, a new one if there was
none. -/
def restarted (service : Service) : AppThread :=
  { a with
    service := service
    frames :=
      if service.threadId = false then []
      else if a.service.threadId then a.frames else [.head] }

/-- What an event does, if it can happen. -/
def step : AppEvent → AppThread → Option AppThread
  | .emitPut group tag value len, a => some (a.emitPut group tag value len)
  | .emitPost, a => a.emitPost
  | .advance ms, a => some { a with uptime := a.uptime + ms }
  | .turn, a => a.turn
  | .callDelay delayMs, a => a.callDelay delayMs
  | .callOnEvent callback, a => a.callOnEvent callback
  | .returnCode, a => a.returnCode
  | .complete resultAddr result, a => some (a.complete cfg resultAddr result)
  | .requestStop, a => some a.requestStop
  | .forceStop, a => some (a.restarted (nativeServiceForceStopThread a.service))
  | .start loaded, a => some (a.restarted (nativeServiceStart loaded a.service).1)
  | .resume loaded, a =>
    -- the thread is gone before the new one is created
    let service := nativeServiceResumeAfterUpgrade loaded a.service
    some { a with service := service, frames := if service.threadId then [.head] else [] }

/-- A step with an event. -/
def Step (a : AppThread) (e : AppEvent) (a' : AppThread) : Prop := step cfg e a = some a'

/-- After boot no thread exists and no event is on its way. -/
def Start (a : AppThread) : Prop :=
  a.service = .boot ∧ a.frames = [] ∧ a.emitting = 0 ∧ a.delays = []

/-- The thread is blocked in `k_event_wait`. -/
def Blocked : Prop := ∃ deadline wakeAt rest, a.frames = .blocked deadline wakeAt :: rest

/-- The thread is about to call `k_event_wait`. -/
def Waits : Prop := ∃ deadline remaining rest, a.frames = .waiting deadline remaining :: rest

end AppThread

end Rtbus.Native
