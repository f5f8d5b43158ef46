import Rtbus.Emos.Runs
import Rtbus.Native.Service

/-!
# The runtime and the application together

The application thread runs between any two steps of the runtime, so the runtime is cut into the
steps between which it may: moving one due event, draining one message of the application, choosing
an event to dispatch, what a handler does that matters to the application, and the return of a
handler. `Pc` is where the runtime stands inside `rtbus_process`.

`System` carries, next to the state of the code, the history that the statements are about: which
request each queued event is (`tags`, in the order of the queues in memory, without the event that
is being handled), what was dispatched, which messages `rtbus_post` refused after they had been
taken from the queue, and which results were written. No step depends on it.
-/

namespace Rtbus.Native

open Rtbus.Emos Rtbus.Pool

/-- A call of a task: the queue and the node of the event, the event, and the request it is, if it
is one. -/
structure Call where
  priority : Nat
  node : Nat
  task : Task
  ctx : Ctx
  request : Option Request
  completed : Bool

/-- Where the runtime stands: outside `rtbus_process`, in the loop of `rtbus_move_due_events`, in
the loop of `rtbus_process_async_posts`, before `emos_process_queued_event`, or in a handler. -/
inductive Pc
  | idle
  | moving (nowMs : UInt32) (i : Nat)
  | draining
  | dispatching
  | handling (call : Call)
  | polling (index : Nat) (task : Task)

/-- An event that was handed to its task. -/
structure Dispatch where
  request : Option Request
  task : Task
  ctx : Ctx
  deriving DecidableEq

/-- A result that was written: for which request, in which era, and where. -/
structure Completion where
  request : Option Request
  era : Nat
  addr : UInt32
  deriving DecidableEq

/-- The runtime with the native service, and the history. -/
structure System where
  bus : Bus Task Service
  pc : Pc
  tags : Nat → List (Option Request)
  calls : List Dispatch
  refused : List Request
  completions : List Completion

/-- What may happen next. `post`, `postDelay` and `advance` are the runtime's own posts, in handlers
or other runtime threads, and the clock. -/
inductive Event
  | appPost (args : PostArgs)
  | post (args : PostArgs)
  | postDelay (args : PostArgs) (delayMs : UInt32)
  | advance (ms : Nat)
  | process
  | move
  | drain
  | dispatch
  | complete (result : UInt32)
  | handoff (turns : List (Nat × Bool))
  | resume (loaded : Loaded)
  | start (loaded : Loaded)
  | finish

/-- The first queue that is not empty. -/
def firstQueue {H X : Type} (s : Bus H X) : Option Nat :=
  (List.range taskPriorityNumber).find? fun p => s.taskTbl p ≠ null

/-- The entry that `emos_process_poll_event` polls, from its counter `i` on, with its index. -/
def pollEntry {H X : Type} (s : Bus H X) : Nat → Nat → Option (Nat × Entry H × H)
  | 0, _ => none
  | left + 1, i =>
    let index := (s.pollNextIndex + i) % s.entryCount
    match s.backend.getByIndex index with
    | none => none
    | some entry =>
      match entry.always, entry.taskEntry with
      | true, some f => some (index, entry, f)
      | _, _ => pollEntry s left (i + 1)

namespace System

variable (cfg : Config) (s : System)

/-- The tags after an event for a task was queued. -/
def push (taskId : UInt8) (tag : Option Request) : Nat → List (Option Request) :=
  match s.bus.backend.find taskId with
  | none => s.tags
  | some entry =>
    Function.update s.tags entry.priority.toNat (s.tags entry.priority.toNat ++ [tag])

/-- The native service changed. -/
def setService (service : Service) : System := { s with bus := { s.bus with rest := service } }

/-- `native_api_rtbus_post`, called by the application thread. -/
def appPost (args : PostArgs) : Option System :=
  if s.bus.rest.threadId then some { s with bus := (nativeApiRtbusPost args s.bus).1 } else none

/-- A post by the runtime itself. -/
def post (args : PostArgs) : Option System :=
  match rtbusPost s.bus args with
  | none => none
  | some (bus, .err _) => some { s with bus := bus }
  | some (bus, .ok) => some { s with bus := bus, tags := s.push args.taskId none }

/-- A delayed post by the runtime itself. -/
def postDelay (args : PostArgs) (delayMs : UInt32) : Option System :=
  if delayMs = 0 then s.post args
  else
    match rtbusPostDelay cfg.delayedPayloadMax s.bus args delayMs with
    | none => none
    | some (bus, _) => some { s with bus := bus }

/-- Time passes. -/
def advance (ms : Nat) : System := { s with bus := { s.bus with uptime := s.bus.uptime + ms } }

/-- `rtbus_process` is called. -/
def process : Option System :=
  match s.pc with
  | .idle => some { s with pc := .moving (uptime32 s.bus) 0 }
  | _ => none

/-- One turn of the loop of `rtbus_move_due_events`; behind it `emos_process` looks at the number
of entries. -/
def move : Option System :=
  match s.pc with
  | .moving nowMs i =>
    match s.bus.delayed[i]? with
    | none => some { s with pc := if s.bus.entryCount = 0 then .idle else .draining }
    | some event =>
      if event.used = false ∨ dueReached nowMs event.dueMs = false then
        some { s with pc := .moving nowMs (i + 1) }
      else
        match emosPost s.bus event.args with
        | none => none
        | some (bus, .err _) => some { s with bus := bus, pc := .idle }
        | some (bus, .ok) =>
          some { s with
            bus := { bus with delayed := bus.delayed.set i DelayedEvent.zero }
            pc := .moving nowMs (i + 1)
            tags := s.push event.taskId none }
  | _ => none

/-- One turn of the loop of `rtbus_process_async_posts`. -/
def drain : Option System :=
  match s.pc with
  | .draining =>
    match s.bus.rest.postMsgq with
    | [] => some { s with pc := .dispatching }
    | request :: rest =>
      match rtbusPost (s.setService { s.bus.rest with postMsgq := rest }).bus request.msg.args with
      | none => none
      | some (bus, .err _) =>
        -- the message is gone from the queue, and the error ends `rtbus_process`
        some { s with bus := bus, pc := .idle, refused := s.refused ++ [request] }
      | some (bus, .ok) =>
        some { s with bus := bus, tags := s.push request.msg.taskId (some request) }
  | _ => none

/-- The queue of a priority without its first event. -/
def pop (priority : Nat) : Nat → List (Option Request) :=
  Function.update s.tags priority (s.tags priority).tail

/-- `emos_process_queued_event` up to the call of a handler, and `emos_process_poll_event` likewise
if nothing is queued. -/
def dispatch : Option System :=
  match s.pc with
  | .dispatching =>
    match firstQueue s.bus with
    | none =>
      match pollEntry s.bus s.bus.entryCount 0 with
      | none => some { s with pc := .idle }
      | some (index, _, task) => some { s with pc := .polling index task }
    | some priority =>
      let node := s.bus.taskTbl priority
      let ctx := readCtx s.bus.heap.mem node
      match s.bus.backend.find ctx.taskId with
      | none =>
        (removeNode s.bus priority node).map fun bus =>
          { s with bus := bus, pc := .idle, tags := s.pop priority }
      | some entry =>
        match entry.taskEntry with
        | none =>
          (removeNode s.bus priority node).map fun bus =>
            { s with bus := bus, pc := .idle, tags := s.pop priority }
        | some task =>
          let request := (s.tags priority).headD none
          some { s with
            pc := .handling ⟨priority, node, task, ctx, request, false⟩
            tags := s.pop priority
            calls := s.calls ++ [⟨request, task, ctx⟩] }
  | _ => none

/-- The handler of a request completes it. -/
def complete (result : UInt32) : Option System :=
  match s.pc with
  | .handling call =>
    match call.completed, call.task.resultAddr cfg call.ctx with
    | false, some addr =>
      let done := nativeServiceCompleteResult cfg addr result s.bus.rest
      some { s.setService done.1 with
        pc := .handling { call with completed := true }
        completions :=
          if addr ≠ 0 ∧ nativeResultAddrValid cfg addr = true then
            s.completions ++ [⟨call.request, s.bus.rest.era, addr⟩]
          else s.completions }
    | _, _ => none
  | _ => none

/-- `rtbus_cli_dfu_handler` stops the application. -/
def handoff (turns : List (Nat × Bool)) : Option System :=
  match s.pc with
  | .handling call =>
    if call.task = .cli then
      (nativeServiceHandoffRamForPatch turns s.bus.rest).map fun done => s.setService done.1
    else none
  | _ => none

/-- `rtbus_cli_dfu_handler` starts the application again after it has stopped it. -/
def resume (loaded : Loaded) : Option System :=
  match s.pc with
  | .handling call =>
    if call.task = .cli ∧ s.bus.rest.patchHandoff then
      some (s.setService (nativeServiceResumeAfterUpgrade loaded s.bus.rest))
    else none
  | _ => none

/-- `rtbus_diagnostics_process` starts the application on its `INIT` event. -/
def start (loaded : Loaded) : Option System :=
  match s.pc with
  | .handling call =>
    if call.task = .diagnostics ∧ call.ctx.id = sysEvt sysInit then
      some (s.setService (nativeServiceStart loaded s.bus.rest).1)
    else none
  | _ => none

/-- A handler returns: the event leaves its queue, or the poll index moves on. -/
def finish : Option System :=
  match s.pc with
  | .handling call =>
    (removeNode s.bus call.priority call.node).map fun bus => { s with bus := bus, pc := .idle }
  | .polling index _ =>
    some { s with
      bus := { s.bus with pollNextIndex := (index + 1) % s.bus.entryCount }, pc := .idle }
  | _ => none

/-- What an event does, if it can happen. -/
def step : Event → System → Option System
  | .appPost args, s => s.appPost args
  | .post args, s => s.post args
  | .postDelay args delayMs, s => s.postDelay cfg args delayMs
  | .advance ms, s => some (s.advance ms)
  | .process, s => s.process
  | .move, s => s.move
  | .drain, s => s.drain
  | .dispatch, s => s.dispatch
  | .complete result, s => s.complete cfg result
  | .handoff turns, s => s.handoff turns
  | .resume loaded, s => s.resume loaded
  | .start loaded, s => s.start loaded
  | .finish, s => s.finish

/-- A sequence of events. -/
def run : List Event → System → Option System
  | [], s => some s
  | e :: es, s => (step cfg e s).bind (run es)

end System

/-! ## The steps are those of the code -/

/-- `emos_process_queued_event` handles the first event of the first queue that is not empty. -/
theorem emosProcessQueuedEvent_eq {H X : Type} (handle : Handle H X) (s : Bus H X) :
    emosProcessQueuedEvent handle s =
      match firstQueue s with
      | none => some (s, .idle)
      | some p => dispatchFirst handle s p := by
  unfold emosProcessQueuedEvent firstQueue
  by_cases h0 : s.taskTbl 0 = null <;> by_cases h1 : s.taskTbl 1 = null <;>
    by_cases h2 : s.taskTbl 2 = null <;>
    simp [taskPriorityNumber, processQueuedFrom, List.range_succ, List.find?, h0, h1, h2]

/-- `emos_process_poll_event` calls the handler of the entry that `pollEntry` finds. -/
theorem pollFrom_eq {H X : Type} (handle : Handle H X) (s : Bus H X) (left i : Nat) :
    pollFrom handle s left i =
      match pollEntry s left i with
      | none => some (s, .idle)
      | some (index, entry, f) =>
        (handle f { taskId := entry.taskId, id := sysEvt sysPoll, payload := [] } s).map fun s =>
          ({ s with pollNextIndex := (index + 1) % s.entryCount }, .polled entry) := by
  induction left generalizing i with
  | zero => rfl
  | succ left ih =>
    unfold pollFrom pollEntry
    cases hget : s.backend.getByIndex ((s.pollNextIndex + i) % s.entryCount) with
    | none => simp only [hget]
    | some entry =>
      cases halways : entry.always with
      | false => simp only [hget, halways, ih]
      | true =>
        cases htask : entry.taskEntry with
        | none => simp only [hget, halways, htask, ih]
        | some f => simp only [hget, halways, htask]

end Rtbus.Native
