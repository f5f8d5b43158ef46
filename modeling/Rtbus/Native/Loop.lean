import Rtbus.Native.Delivery

/-!
# The loop of the runtime thread

`rtbus_runtime_thread_entry` calls `rtbus_process`, which dispatches at most one event, and then
waits on `runtime_event_sem` until an event is posted, a delayed event is due, or
`CONFIG_RTBUS_RUNTIME_TIMEOUT_MAX_MS` have passed. Every post gives the semaphore; it is binary, so
several posts between two waits give it once.

`RuntimeLoop` puts the loop around `System`. `left` is history: whether anything was left over when
`rtbus_process` had chosen what to dispatch, or had given up with an error.
-/

namespace Rtbus.Native

open Rtbus.Emos Rtbus.Pool

/-- `rtbus_timeout_until`: the signed 32-bit difference, and 0 if it is negative. -/
def timeoutUntil (nowMs dueMs : UInt32) : Nat :=
  if (dueMs - nowMs).toNat < 2 ^ 31 then (dueMs - nowMs).toNat else 0

/-- `rtbus_next_timeout_ms`; `none` is -1. -/
def nextTimeoutMs (b : Bus Task Service) : Option Nat :=
  b.delayed.foldl (fun next event =>
    if event.used = false then next
    else
      let timeout := timeoutUntil (uptime32 b) event.dueMs
      match next with
      | none => some timeout
      | some least => if timeout < least then some timeout else some least) none

/-- The timeout that the loop waits with. -/
def waitTimeout (timeoutMax : Nat) (b : Bus Task Service) : Nat :=
  match nextTimeoutMs b with
  | none => timeoutMax
  | some timeout => if timeout > timeoutMax then timeoutMax else timeout

/-- Where the thread is in its loop: in `rtbus_process`, before `rtbus_next_timeout_ms`, before
`runtime_event_wait`, or blocked in it. -/
inductive LoopPc
  | processing
  | computing
  | waiting (timeoutMs : Nat)
  | blocked (wakeAt : Nat)
  deriving DecidableEq

/-- The runtime with its thread. -/
structure RuntimeLoop where
  system : System
  pc : LoopPc
  left : Bool

/-- What may happen next: a step of the system, or one of the loop around `rtbus_process`. -/
inductive LoopEvent
  | act (e : Event)
  | timeout
  | wait
  | expire

/-- The steps that the runtime thread takes inside `rtbus_process`. -/
def Event.inProcess : Event → Bool
  | .appPost _ | .post _ | .postDelay _ _ | .advance _ => false
  | _ => true

/-- The steps that choose an event to dispatch, or end `rtbus_process` before. -/
def Event.chooses : Event → Bool
  | .move | .drain | .dispatch => true
  | _ => false

/-- An event is queued besides the one that is being handled, or a message of the application is. -/
def System.workLeft (s : System) : Bool :=
  !s.bus.rest.postMsgq.isEmpty ||
    (List.range taskPriorityNumber).any fun p => !(s.tags p).isEmpty

/-- Whether the runtime is outside of `rtbus_process`. -/
def Pc.isIdle : Pc → Bool
  | .idle => true
  | _ => false

namespace RuntimeLoop

variable (cfg : Config) (timeoutMax : Nat) (l : RuntimeLoop)

/-- The state with a semaphore count. -/
def withSem (n : Nat) (s : System) : System := { s with bus := { s.bus with eventSem := n } }

/-- A step of the system. A post wakes the thread if it is blocked, and gives the semaphore
otherwise. -/
def act (e : Event) : Option RuntimeLoop :=
  if e.inProcess ∧ l.pc ≠ .processing then none
  else
    match System.step cfg e l.system with
    | none => none
    | some s =>
      let left := if e.chooses then s.workLeft else l.left
      match l.pc with
      | .processing =>
        some ⟨s, if e.inProcess && s.pc.isIdle then .computing else .processing, left⟩
      | .blocked wakeAt =>
        if s.bus.eventSem = 0 then some ⟨s, .blocked wakeAt, left⟩
        else some ⟨withSem 0 s, .processing, left⟩
      | pc => some ⟨s, pc, left⟩

/-- `rtbus_next_timeout_ms` and the bound on it. -/
def timeout : Option RuntimeLoop :=
  match l.pc with
  | .computing => some { l with pc := .waiting (waitTimeout timeoutMax l.system.bus) }
  | _ => none

/-- `runtime_event_wait`. -/
def wait : Option RuntimeLoop :=
  match l.pc with
  | .waiting timeoutMs =>
    if l.system.bus.eventSem ≠ 0 then
      some { l with system := withSem (l.system.bus.eventSem - 1) l.system, pc := .processing }
    else if timeoutMs = 0 then some { l with pc := .processing }
    else some { l with pc := .blocked (l.system.bus.uptime + timeoutMs) }
  | _ => none

/-- The wait times out. -/
def expire : Option RuntimeLoop :=
  match l.pc with
  | .blocked wakeAt =>
    if l.system.bus.uptime < wakeAt then none else some { l with pc := .processing }
  | _ => none

/-- What an event does, if it can happen. -/
def step : LoopEvent → RuntimeLoop → Option RuntimeLoop
  | .act e, l => l.act cfg e
  | .timeout, l => l.timeout timeoutMax
  | .wait, l => l.wait
  | .expire, l => l.expire

/-- A step with an event; the runtime's own posts have block sizes that do not wrap `size_t`. -/
def Step (l : RuntimeLoop) (e : LoopEvent) (l' : RuntimeLoop) : Prop :=
  step cfg timeoutMax e l = some l' ∧ ∀ act, e = .act act → act.Allowed fun _ => True

/-- After `rtbus_init` the thread enters its loop. -/
def Start (l : RuntimeLoop) : Prop := l.system.Start ∧ l.pc = .processing

end RuntimeLoop

end Rtbus.Native
