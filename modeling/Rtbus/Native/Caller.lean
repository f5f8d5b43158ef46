import Rtbus.Native.Tracking

/-!
# Calls that wait for a result

`rtbus_post_wait_result` stores `-RTBUS_EINPROGRESS` where the result is to come, posts the request,
takes `native_result_sem` and reads the word. `Caller` adds the application thread, with the point
in such a call at which it is, to the system.

`results` and `returned` are history: the values that handlers passed to
`native_service_complete_result`, each with the request that it was for, and the values that
`rtbus_post_wait_result` returned for the requests it had posted.
-/

namespace Rtbus.Native

open Rtbus.Emos Rtbus.Pool

/-- `-RTBUS_EINPROGRESS`, the placeholder. -/
def inProgress : UInt32 := 0 - 115

/-- Where the application thread is: in its own code, or in a call of `rtbus_post_wait_result`, with
the placeholder stored, the request posted, or the semaphore taken. -/
inductive CallPc
  | running
  | posting (args : PostArgs) (resultAddr : UInt32)
  | waiting (request : Request) (resultAddr : UInt32)
  | reading (request : Request) (resultAddr : UInt32)

/-- The system with its application thread. -/
structure Caller where
  system : System
  pc : CallPc
  results : List (Request × UInt32)
  returned : List (Request × UInt32)

/-- What may happen next: a step of the system, in which the application thread takes part only with
posts of its own, a write of the application to its RAM, or a step of a call. -/
inductive CallerEvent
  | act (e : Event)
  | write (ram : Memory)
  | call (args : PostArgs) (resultAddr : UInt32)
  | post
  | take
  | read

/-- A completion that writes a result: the address is not zero and valid. -/
def writesResult (cfg : Config) (addr : UInt32) : Bool :=
  addr ≠ 0 && nativeResultAddrValid cfg addr

/-- What a handler passes to `native_service_complete_result`, if the result is written. -/
def System.passed (cfg : Config) (s : System) : Event → List (Request × UInt32)
  | .complete result =>
    match s.pc with
    | .handling call =>
      match call.completed, call.request, call.task.resultAddr cfg call.ctx with
      | false, some r, some addr => if writesResult cfg addr then [(r, result)] else []
      | _, _, _ => []
    | _ => []
  | _ => []

/-- The application's own posts. -/
def Event.ofApp : Event → Bool
  | .appPost _ => true
  | _ => false

/-- Whether the application thread is outside of `rtbus_post_wait_result`. -/
def CallPc.isRunning : CallPc → Bool
  | .running => true
  | _ => false

namespace Caller

variable (cfg : Config) (c : Caller)

/-- A word of application RAM is stored. -/
def withRam (ram : Memory) (s : System) : System := s.setService { s.bus.rest with ram := ram }

/-- A step of the system. -/
def act (e : Event) : Option Caller :=
  if e.ofApp && !c.pc.isRunning then none
  else
    (System.step cfg e c.system).map fun s =>
      { c with system := s, results := c.results ++ c.system.passed cfg e }

/-- The application writes to its RAM. -/
def write (ram : Memory) : Option Caller :=
  if c.pc.isRunning && c.system.bus.rest.threadId then
    some { c with system := withRam ram c.system }
  else none

/-- `rtbus_post_wait_result` is called and stores the placeholder. -/
def call (args : PostArgs) (resultAddr : UInt32) : Option Caller :=
  if c.pc.isRunning && c.system.bus.rest.threadId then
    let ram := c.system.bus.rest.ram.store32 resultAddr.toNat inProgress.toNat
    some { c with system := withRam ram c.system, pc := .posting args resultAddr }
  else none

/-- It posts the request; an error is returned. -/
def post : Option Caller :=
  match c.pc with
  | .posting args resultAddr =>
    let (bus, ret) := nativeApiRtbusPost args c.system.bus
    let s := { c.system with bus := bus }
    match ret, bus.rest.accepted.getLast? with
    | .ok, some request => some { c with system := s, pc := .waiting request resultAddr }
    | _, _ => some { c with system := s, pc := .running }
  | _ => none

/-- `native_api_result_wait` with `RTBUS_WAIT_FOREVER` takes the semaphore. -/
def take : Option Caller :=
  match c.pc with
  | .waiting request resultAddr =>
    if c.system.bus.rest.resultSem = 0 then none
    else
      let service := { c.system.bus.rest with resultSem := c.system.bus.rest.resultSem - 1 }
      some { c with system := c.system.setService service, pc := .reading request resultAddr }
  | _ => none

/-- It reads the word and returns it. -/
def read : Option Caller :=
  match c.pc with
  | .reading request resultAddr =>
    let value := UInt32.ofNat (c.system.bus.rest.ram.load32 resultAddr.toNat)
    some { c with pc := .running, returned := c.returned ++ [(request, value)] }
  | _ => none

/-- What an event does, if it can happen. -/
def step : CallerEvent → Caller → Option Caller
  | .act e, c => c.act cfg e
  | .write ram, c => c.write ram
  | .call args resultAddr, c => c.call args resultAddr
  | .post, c => c.post
  | .take, c => c.take
  | .read, c => c.read

/-- After boot the application does not run. -/
def Start (c : Caller) : Prop :=
  c.system.Start ∧ c.pc = .running ∧ c.results = [] ∧ c.returned = []

end Caller

end Rtbus.Native
