import Rtbus.Emos.Entries
import Rtbus.Emos.Linklist

/-!
# The event core

`emos.c` queues events for tasks of three priorities. An event is a node of the linked list of its
priority, in a block of pool 0: the link word, then the context that the handler gets (task id,
context id, payload length, payload). `emos_process` first runs a hook that may post events on
behalf of other threads, then hands the first event of the first non-empty queue to its task, and
polls one task if nothing was queued.

The state is one record for `emos.c` and its facade `rtbus.c`. `rest` is the state of the rest of
the program, which only the hook and the handlers touch; they are parameters of the functions that
call them.
-/

namespace Rtbus.Emos

open Rtbus.Pool

/-- `rtbus_delayed_event`, with the `payload_len` bytes of its payload array that are in use. -/
structure DelayedEvent where
  used : Bool
  taskId : UInt8
  ctxId : UInt32
  payloadLen : UInt32
  dueMs : UInt32
  payload : List UInt8
  length_eq : payload.length = payloadLen.toNat

/-- A cleared slot. -/
def DelayedEvent.zero : DelayedEvent :=
  { used := false, taskId := 0, ctxId := 0, payloadLen := 0, dueMs := 0, payload := [],
    length_eq := rfl }

/-- The state of the bus. `uptime` is the real time in milliseconds and `eventSem` the count of
`runtime_event_sem`. -/
structure Bus (H X : Type) where
  heap : Heap
  taskTbl : Nat → Nat
  entryCount : Nat
  pollNextIndex : Nat
  backend : Backend H
  eventSem : Nat
  delayed : List DelayedEvent
  uptime : Nat
  rest : X

/-- `emos_ctx_t`, with the `payload_len` bytes behind it. -/
structure Ctx where
  taskId : UInt8
  id : UInt32
  payload : List UInt8
  deriving DecidableEq

/-- The arguments of a post. A payload is `NULL` or points to at least `payload_len` bytes. -/
structure PostArgs where
  taskId : UInt8
  ctxId : UInt32
  payload : Option (List UInt8)
  payloadLen : UInt32
  readable : ∀ bytes, payload = some bytes → payloadLen.toNat ≤ bytes.length

/-- A post without a payload. -/
def PostArgs.bare (taskId : UInt8) (ctxId : UInt32) : PostArgs :=
  { taskId := taskId, ctxId := ctxId, payload := none, payloadLen := 0,
    readable := fun _ h => nomatch h }

/-- The bytes that a post copies. -/
def PostArgs.bytes (args : PostArgs) : List UInt8 := (args.payload.getD []).take args.payloadLen.toNat

/-- The context that the handler of a post gets. -/
def PostArgs.ctx (args : PostArgs) : Ctx :=
  { taskId := args.taskId, id := args.ctxId, payload := args.bytes }

/-- `POOL_ID`. -/
abbrev poolId : Nat := 0

/-- `CTX_SYS_SHIFT`. -/
def ctxSysShift (x : UInt32) : UInt32 := (x &&& 0xF) <<< 28

/-- `EMOS_SYS_INIT`. -/
def sysInit : UInt32 := 1

/-- `EMOS_SYS_POLL`. -/
def sysPoll : UInt32 := 2

/-- `SYS_EVT`: no application id. -/
def sysEvt (sysId : UInt32) : UInt32 := ctxSysShift sysId ||| 0

variable {H X : Type}

/-- `runtime_event_signal`, which `rtbus_post_after` is: give a binary semaphore. -/
def eventSignal (s : Bus H X) : Bus H X := { s with eventSem := min (s.eventSem + 1) 1 }

/-- The bytes of a context in a node: the stores of `emos_post` behind the link word. -/
def writeCtx (m : Memory) (node : Nat) (ctx : Ctx) : Memory :=
  let m := m.store8 (node + 4) ctx.taskId
  let m := m.store32 (node + 8) ctx.id.toNat
  let m := m.store32 (node + 12) ctx.payload.length
  m.copy (node + 16) ctx.payload

/-- The context in a node, as a handler reads it. -/
def readCtx (m : Memory) (node : Nat) : Ctx :=
  { taskId := m (node + 4)
    id := UInt32.ofNat (m.load32 (node + 8))
    payload := m.slice (node + 16) (m.load32 (node + 12)) }

/-- `emos_post`. -/
def emosPost (s : Bus H X) (args : PostArgs) : Option (Bus H X × Ret) :=
  if s.entryCount = 0 then some (s, .err .ENODEV)
  else
    match s.backend.find args.taskId with
    | none => some (s, .err .ENOENT)
    | some entry =>
      if args.payloadLen ≠ 0 ∧ args.payload = none then some (s, .err .EINVAL)
      else if entry.priority.toNat ≥ taskPriorityNumber then some (s, .err .EINVAL)
      else
        let allocLen := wrap (4 + 12 + args.payloadLen.toNat)
        if allocLen > 65535 then some (s, .err .ENOMEM)
        else
          let priority := entry.priority.toNat
          match linklistNew s.heap poolId (s.taskTbl priority) allocLen with
          | none => none
          | some (heap, head, node) =>
            let s := { s with heap := heap, taskTbl := Function.update s.taskTbl priority head }
            if node = null then some (s, .err .ENOMEM)
            else
              let s := { s with heap := { s.heap with mem := writeCtx s.heap.mem node args.ctx } }
              some (eventSignal s, .ok)

/-- `emos_init_pool`. -/
def emosInitPool (s : Bus H X) (poolAddr poolSize : Nat) : Bus H X × Ret :=
  let s := { s with
    taskTbl := fun _ => null, backend := s.backend.reset, entryCount := 0, pollNextIndex := 0 }
  if poolAddr = null ∨ poolSize = 0 then (s, .err .EINVAL)
  else ({ s with heap := initMemPool s.heap poolId poolAddr poolSize }, .ok)

/-- The `INIT` event of an entry. -/
def initArgs (entry : Entry H) : PostArgs := .bare entry.taskId (ctxSysShift sysInit)

/-- The loop of `emos_init` that posts the `INIT` events of the `count` entries from `index` on. -/
def postInitEvents : Nat → Nat → Bus H X → Option (Bus H X × Ret)
  | 0, _, s => some (s, .ok)
  | count + 1, index, s =>
    match s.backend.getByIndex index with
    | none => some (s, .err .EINVAL)
    | some entry =>
      if entry.init then
        match emosPost s (initArgs entry) with
        | none => none
        | some (s, .err e) => some (s, .err e)
        | some (s, .ok) => postInitEvents count (index + 1) s
      else postInitEvents count (index + 1) s

/-- `emos_init`. -/
def emosInit (s : Bus H X) (poolAddr poolSize : Nat) (entryTbl : Option (EntryTable H)) :
    Option (Bus H X × Ret) :=
  match emosInitPool s poolAddr poolSize with
  | (s, .err e) => some (s, .err e)
  | (s, .ok) =>
    match s.backend.init entryTbl with
    | (backend, .err e, _) => some ({ s with backend := backend }, .err e)
    | (backend, .ok, count) =>
      postInitEvents count 0 { s with backend := backend, entryCount := count }

/-- What a call of `emos_process` or `rtbus_process` did, from which its result follows: 0 for
`idle`, the error for `failed`, 1 otherwise. -/
inductive Outcome (H : Type)
  /-- Nothing was queued and no task wants to be polled. -/
  | idle
  /-- The context of a queued event was handed to its task. -/
  | dispatched (entry : Entry H) (ctx : Ctx)
  /-- A queued event without a task was removed. -/
  | dropped
  /-- A task was polled. -/
  | polled (entry : Entry H)
  /-- A stage before the dispatch returned an error. -/
  | failed (e : Errno)

/-- What a handler does to the program when it is called with a context. -/
abbrev Handle (H X : Type) := H → Ctx → Bus H X → Option (Bus H X)

/-- `linklist_remove` on the queue of one priority. -/
def removeNode (s : Bus H X) (priority node : Nat) : Option (Bus H X) :=
  match linklistRemove s.heap poolId (s.taskTbl priority) node with
  | none => none
  | some (heap, head) =>
    some { s with heap := heap, taskTbl := Function.update s.taskTbl priority head }

/-- The body of the loop of `emos_process_queued_event` for a queue that is not empty. -/
def dispatchFirst (handle : Handle H X) (s : Bus H X) (priority : Nat) :
    Option (Bus H X × Outcome H) :=
  let node := s.taskTbl priority
  let ctx := readCtx s.heap.mem node
  match s.backend.find ctx.taskId with
  | none => (removeNode s priority node).map fun s => (s, .dropped)
  | some entry =>
    -- the node stays in its queue while the handler runs
    match (match entry.taskEntry with | some f => handle f ctx s | none => some s) with
    | none => none
    | some s => (removeNode s priority node).map fun s => (s, .dispatched entry ctx)

/-- `emos_process_queued_event` from a priority on, with so many priorities left. -/
def processQueuedFrom (handle : Handle H X) (s : Bus H X) :
    Nat → Nat → Option (Bus H X × Outcome H)
  | 0, _ => some (s, .idle)
  | left + 1, priority =>
    if s.taskTbl priority ≠ null then dispatchFirst handle s priority
    else processQueuedFrom handle s left (priority + 1)

/-- `emos_process_queued_event`. -/
def emosProcessQueuedEvent (handle : Handle H X) (s : Bus H X) : Option (Bus H X × Outcome H) :=
  processQueuedFrom handle s taskPriorityNumber 0

/-- The loop of `emos_process_poll_event` from its counter `i` on. -/
def pollFrom (handle : Handle H X) (s : Bus H X) : Nat → Nat → Option (Bus H X × Outcome H)
  | 0, _ => some (s, .idle)
  | left + 1, i =>
    let index := (s.pollNextIndex + i) % s.entryCount
    match s.backend.getByIndex index with
    | none => some (s, .idle)
    | some entry =>
      match entry.always, entry.taskEntry with
      | true, some f =>
        (handle f { taskId := entry.taskId, id := sysEvt sysPoll, payload := [] } s).map fun s =>
          ({ s with pollNextIndex := (index + 1) % s.entryCount }, .polled entry)
      | _, _ => pollFrom handle s left (i + 1)

/-- `emos_process_poll_event`. -/
def emosProcessPollEvent (handle : Handle H X) (s : Bus H X) : Option (Bus H X × Outcome H) :=
  pollFrom handle s s.entryCount 0

/-- The stages of `emos_process` behind the hook: dispatch, or else poll. -/
def dispatchOrPoll (handle : Handle H X) (s : Bus H X) : Option (Bus H X × Outcome H) :=
  match emosProcessQueuedEvent handle s with
  | none => none
  | some (s, .idle) => emosProcessPollEvent handle s
  | some (s, outcome) => some (s, outcome)

/-- `emos_process`, with the hook for asynchronous posts. -/
def emosProcess (async : Bus H X → Option (Bus H X × Ret)) (handle : Handle H X) (s : Bus H X) :
    Option (Bus H X × Outcome H) :=
  if s.entryCount = 0 then some (s, .idle)
  else
    match async s with
    | none => none
    | some (s, .err e) => some (s, .failed e)
    | some (s, .ok) => dispatchOrPoll handle s

end Rtbus.Emos
