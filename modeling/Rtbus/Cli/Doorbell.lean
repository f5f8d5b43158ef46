import Rtbus.Base.Run
import Rtbus.Cli.Input

/-!
# Who will look at the input queue

`rtbus_cli_input_pending` says that somebody has been told of the bytes in the queue. Any number of
calls of `rtbus_cli_submit_byte`, the work item and `rtbus_cli_process_input` are cut into their
accesses to the queue, the flag and the work item here, and these come in any order.

The flag is set only by one who goes on to submit the work item, and the task looks at the queue again
behind clearing it. The work item does not when its post has failed: it clears the flag over bytes
that nobody else may know of (`served_clear_iff`). Otherwise nothing is left behind
(`served_of_attended`).
-/

namespace Rtbus.Cli

/-- Where `rtbus_cli_input_work_handler` is: not running, before its post, or before it clears the flag
because the post has failed. -/
inductive HandlerPc
  | idle
  | posting
  | clearing
  deriving DecidableEq

/-- Where `rtbus_cli_process_input` is: not running, in its loop, before it clears the flag, before it
looks at the queue again, before its compare-and-set, or before it submits the work item. -/
inductive ProcessPc
  | idle
  | reading
  | clearing
  | checking
  | swapping
  | submitting
  deriving DecidableEq

/-- The queue with all that is under way. `admitted` are the bytes of the calls of
`rtbus_cli_submit_byte` that have found the input enabled, `signalling` counts those that have put
their byte and have their compare-and-set before them, `winning` those that have set the flag and
submit the work item next. `work` says that the work item is queued, `posted` counts the
`RTBUS_CLI_INPUT` events that are. -/
structure Doorbell where
  inputEnabled : Bool
  msgq : List UInt8
  pending : Bool
  work : Bool
  posted : Nat
  admitted : List UInt8
  signalling : Nat
  winning : Nat
  handler : HandlerPc
  process : ProcessPc
  deriving DecidableEq

/-- What may happen next: the steps of a call of `rtbus_cli_submit_byte`, of the work item and of the
task. The task may change `rtbus_cli_input_enabled` while a command runs. -/
inductive DoorbellEvent
  | call (byte : UInt8)
  | put (byte : UInt8)
  | swap
  | submit
  | work
  | post (ok : Bool)
  | clear
  | run
  | enable (on : Bool)
  | turn
  deriving DecidableEq

namespace Doorbell

variable (s : Doorbell)

/-- `rtbus_cli_submit_byte` looks at `rtbus_cli_input_enabled`. -/
def call (byte : UInt8) : Option Doorbell :=
  some (if s.inputEnabled then { s with admitted := byte :: s.admitted } else s)

/-- It calls `k_msgq_put`, and returns if the queue is full. -/
def put (byte : UInt8) : Option Doorbell :=
  if byte ∈ s.admitted then
    if s.msgq.length ≥ inputQueueDepth then some { s with admitted := s.admitted.erase byte }
    else
      some { s with
        admitted := s.admitted.erase byte
        msgq := s.msgq ++ [byte]
        signalling := s.signalling + 1 }
  else none

/-- It calls `atomic_cas(&rtbus_cli_input_pending, 0, 1)`. -/
def swap : Option Doorbell :=
  if s.signalling = 0 then none
  else if s.pending then some { s with signalling := s.signalling - 1 }
  else
    some { s with signalling := s.signalling - 1, pending := true, winning := s.winning + 1 }

/-- It calls `k_work_submit`. -/
def submit : Option Doorbell :=
  if s.winning = 0 then none else some { s with winning := s.winning - 1, work := true }

/-- `rtbus_cli_input_work_handler` is started. -/
def start : Option Doorbell :=
  if s.work = true ∧ s.handler = .idle then some { s with work := false, handler := .posting }
  else none

/-- It calls `rtbus_post`. -/
def post (ok : Bool) : Option Doorbell :=
  if s.handler = .posting then
    if ok then some { s with posted := s.posted + 1, handler := .idle }
    else some { s with handler := .clearing }
  else none

/-- It clears the flag because the post has failed. -/
def clear : Option Doorbell :=
  if s.handler = .clearing then some { s with pending := false, handler := .idle } else none

/-- `rtbus_cli_process` gets `RTBUS_CLI_INPUT`. -/
def run : Option Doorbell :=
  if s.process = .idle ∧ s.posted ≠ 0 then
    some { s with posted := s.posted - 1, process := .reading }
  else none

/-- A command that the task runs sets `rtbus_cli_input_enabled`. -/
def enable (on : Bool) : Option Doorbell :=
  if s.process = .reading then some { s with inputEnabled := on } else none

/-- The next step of `rtbus_cli_process_input`. -/
def turn : Option Doorbell :=
  match s.process, s.msgq with
  | .idle, _ => none
  | .reading, _ :: rest => some { s with msgq := rest }
  | .reading, [] => some { s with process := .clearing }
  | .clearing, _ => some { s with pending := false, process := .checking }
  | .checking, [] => some { s with process := .idle }
  | .checking, _ :: _ => some { s with process := .swapping }
  | .swapping, _ =>
    if s.pending then some { s with process := .idle }
    else some { s with pending := true, process := .submitting }
  | .submitting, _ => some { s with work := true, process := .idle }

/-- What an event does, if it can happen. -/
def step : DoorbellEvent → Doorbell → Option Doorbell
  | .call byte, s => s.call byte
  | .put byte, s => s.put byte
  | .swap, s => s.swap
  | .submit, s => s.submit
  | .work, s => s.start
  | .post ok, s => s.post ok
  | .clear, s => s.clear
  | .run, s => s.run
  | .enable on, s => s.enable on
  | .turn, s => s.turn

/-- A step with an event. -/
def Step (s : Doorbell) (e : DoorbellEvent) (s' : Doorbell) : Prop := step e s = some s'

/-- After boot. -/
def boot : Doorbell :=
  { inputEnabled := true, msgq := [], pending := false, work := false, posted := 0, admitted := []
    signalling := 0, winning := 0, handler := .idle, process := .idle }

/-- None of the three is in progress. -/
structure Quiet (s : Doorbell) : Prop where
  admitted : s.admitted = []
  signalling : s.signalling = 0
  winning : s.winning = 0
  handler : s.handler = .idle
  process : s.process = .idle

/-- If bytes wait and nothing is in progress, the work item or an event is queued. -/
def Served (s : Doorbell) : Prop := s.Quiet → s.msgq ≠ [] → s.work = true ∨ s.posted ≠ 0

/-- No byte waits, or another one is under way: a call that has put a byte and is not through, the work
item or an event in its queue, or the task. -/
def Attended (s : Doorbell) : Prop :=
  s.msgq = [] ∨ s.signalling ≠ 0 ∨ s.winning ≠ 0 ∨ s.work = true ∨ s.posted ≠ 0 ∨ s.process ≠ .idle

instance (s : Doorbell) : Decidable s.Attended := inferInstanceAs (Decidable (_ ∨ _))

/-- A step in which the work item, if it clears the flag after a failed post, leaves no byte that no
other one attends to. -/
def AttendedStep (s : Doorbell) (e : DoorbellEvent) (s' : Doorbell) : Prop :=
  Step s e s' ∧ (e = .clear → s.Attended)

/-- The one who has set the flag is still on the way to the queue. -/
def Token (s : Doorbell) : Prop :=
  s.winning ≠ 0 ∨ s.work = true ∨ s.handler ≠ .idle ∨ s.posted ≠ 0 ∨ s.process = .reading ∨
    s.process = .clearing ∨ s.process = .submitting

/-- Bytes wait only while somebody is on the way to them. -/
structure Live (s : Doorbell) : Prop where
  token : s.pending = true → s.Token
  queued : s.msgq ≠ [] →
    s.Token ∨ s.signalling ≠ 0 ∨ s.process = .checking ∨ s.process = .swapping

variable {s} {s' : Doorbell}

/-- A token is enough. -/
theorem Live.of_token (h : s.Token) : Live s := ⟨fun _ => h, fun _ => .inl h⟩

/-- A call that is let in has put nothing yet. -/
theorem Live.call (h : Live s) {byte : UInt8} (step : s.call byte = some s') : Live s' := by
  cases step
  split
  · exact ⟨h.token, h.queued⟩
  · exact h

/-- Whoever has put a byte is going to signal. -/
theorem Live.put (h : Live s) {byte : UInt8} (step : s.put byte = some s') : Live s' := by
  unfold Doorbell.put at step
  split at step
  · split at step
    · cases step
      exact ⟨h.token, h.queued⟩
    · cases step
      exact ⟨h.token, fun _ => .inr (.inl (Nat.succ_ne_zero _))⟩
  · cases step

/-- Its compare-and-set finds the flag set, and somebody on the way, or sets it and is that one. -/
theorem Live.swap (h : Live s) (step : s.swap = some s') : Live s' := by
  unfold Doorbell.swap at step
  split at step
  · cases step
  · split at step
    · next hpending =>
      cases step
      exact .of_token (h.token hpending)
    · cases step
      exact .of_token (.inl (Nat.succ_ne_zero _))

/-- The work item is queued. -/
theorem Live.submit (step : s.submit = some s') : Live s' := by
  unfold Doorbell.submit at step
  split at step
  · cases step
  · cases step
    exact .of_token (.inr (.inl rfl))

/-- The work item runs. -/
theorem Live.start (step : s.start = some s') : Live s' := by
  unfold Doorbell.start at step
  split at step
  · cases step
    exact .of_token (.inr (.inr (.inl nofun)))
  · cases step

/-- An event is queued, or the work item has the flag to clear. -/
theorem Live.post {ok : Bool} (step : s.post ok = some s') : Live s' := by
  unfold Doorbell.post at step
  split at step
  · split at step
    · cases step
      exact .of_token (.inr (.inr (.inr (.inl (Nat.succ_ne_zero _)))))
    · cases step
      exact .of_token (.inr (.inr (.inl nofun)))
  · cases step

/-- Whoever attends to the bytes is still under way when the flag has been cleared. -/
theorem Live.clear (attended : s.Attended) (step : s.clear = some s') : Live s' := by
  unfold Doorbell.clear at step
  split at step
  · cases step
    refine ⟨nofun, fun hmsgq => ?_⟩
    rcases attended with h | h | h | h | h | h
    · exact absurd h hmsgq
    · exact .inr (.inl h)
    · exact .inl (.inl h)
    · exact .inl (.inr (.inl h))
    · exact .inl (.inr (.inr (.inr (.inl h))))
    · cases hprocess : s.process with
      | idle => exact absurd hprocess h
      | reading => exact .inl (.inr (.inr (.inr (.inr (.inl rfl)))))
      | clearing => exact .inl (.inr (.inr (.inr (.inr (.inr (.inl rfl))))))
      | checking => exact .inr (.inr (.inl rfl))
      | swapping => exact .inr (.inr (.inr rfl))
      | submitting => exact .inl (.inr (.inr (.inr (.inr (.inr (.inr rfl))))))
  · cases step

/-- The task reads the queue. -/
theorem Live.run (step : s.run = some s') : Live s' := by
  unfold Doorbell.run at step
  split at step
  · cases step
    exact .of_token (.inr (.inr (.inr (.inr (.inl rfl)))))
  · cases step

/-- A command that shuts the input leaves what waits. -/
theorem Live.enable (h : Live s) {on : Bool} (step : s.enable on = some s') : Live s' := by
  unfold Doorbell.enable at step
  split at step
  · cases step
    exact ⟨h.token, h.queued⟩
  · cases step

/-- Behind the clearing of the flag and before the submission, the token is not the task. It stays
when the task goes on. -/
theorem Token.of_process (h : s.Token) (between : s.process = .checking ∨ s.process = .swapping)
    {pc : ProcessPc} : Token { s with process := pc } := by
  have htask : s.process ≠ .reading ∧ s.process ≠ .clearing ∧ s.process ≠ .submitting := by
    rcases between with hpc | hpc
    · rw [hpc]
      exact ⟨nofun, nofun, nofun⟩
    · rw [hpc]
      exact ⟨nofun, nofun, nofun⟩
  rcases h with h | h | h | h | h | h | h
  · exact .inl h
  · exact .inr (.inl h)
  · exact .inr (.inr (.inl h))
  · exact .inr (.inr (.inr (.inl h)))
  · exact absurd h htask.1
  · exact absurd h htask.2.1
  · exact absurd h htask.2.2

/-- The task that has found bytes behind clearing the flag signals for them. -/
theorem Live.turn (h : Live s) (step : s.turn = some s') : Live s' := by
  unfold Doorbell.turn at step
  split at step
  · cases step
  · next hpc _ =>
    cases step
    exact .of_token (.inr (.inr (.inr (.inr (.inl hpc)))))
  · cases step
    exact .of_token (.inr (.inr (.inr (.inr (.inr (.inl rfl))))))
  · cases step
    exact ⟨nofun, fun _ => .inr (.inr (.inl rfl))⟩
  · next hpc hmsgq =>
    cases step
    exact ⟨fun hpending => (h.token hpending).of_process (.inl hpc), fun hne => absurd hmsgq hne⟩
  · next hpc _ =>
    cases step
    exact ⟨fun hpending => (h.token hpending).of_process (.inl hpc),
      fun _ => .inr (.inr (.inr rfl))⟩
  · next hpc =>
    split at step
    · next hpending =>
      cases step
      exact .of_token ((h.token hpending).of_process (.inr hpc))
    · cases step
      exact .of_token (.inr (.inr (.inr (.inr (.inr (.inr rfl))))))
  · cases step
    exact .of_token (.inr (.inl rfl))

/-- One attended step keeps it. -/
theorem Live.step (h : Live s) {e : DoorbellEvent} (step : AttendedStep s e s') : Live s' := by
  obtain ⟨step, attended⟩ := step
  cases e with
  | call byte => exact h.call step
  | put byte => exact h.put step
  | swap => exact h.swap step
  | submit => exact .submit step
  | work => exact .start step
  | post ok => exact .post step
  | clear => exact .clear (attended rfl) step
  | run => exact .run step
  | enable on => exact h.enable step
  | turn => exact h.turn step

/-- Bytes that wait while nothing is in progress have been told of. -/
theorem Live.served (h : Live s) : s.Served := by
  intro hquiet hmsgq
  have htoken : s.Token := by
    rcases h.queued hmsgq with h | h | h | h
    · exact h
    · exact absurd hquiet.signalling h
    · exact absurd (hquiet.process.symm.trans h) nofun
    · exact absurd (hquiet.process.symm.trans h) nofun
  rcases htoken with h | h | h | h | h | h | h
  · exact absurd hquiet.winning h
  · exact .inl h
  · exact absurd hquiet.handler h
  · exact .inr h
  · exact absurd (hquiet.process.symm.trans h) nofun
  · exact absurd (hquiet.process.symm.trans h) nofun
  · exact absurd (hquiet.process.symm.trans h) nofun

/-- The step that clears the flag after a failed post leaves bytes to nobody exactly when no other one
attends to them. -/
theorem served_clear_iff (admitted : s.admitted = []) (step : s.clear = some s') :
    s'.Served ↔ s.Attended := by
  unfold Doorbell.clear at step
  split at step
  · cases step
    constructor
    · intro h
      by_contra hno
      unfold Attended at hno
      simp only [not_or, ne_eq, not_not] at hno
      obtain ⟨hmsgq, hsignalling, hwinning, hwork, hposted, hprocess⟩ := hno
      rcases h ⟨admitted, hsignalling, hwinning, rfl, hprocess⟩ hmsgq with h | h
      · exact hwork h
      · exact h hposted
    · exact fun h => (Live.clear h (if_pos ‹_›)).served
  · cases step

/-- In a run in which the work item never clears the flag over bytes that nobody attends to, bytes do
not wait for another byte. -/
theorem served_of_attended (h : Run.Reachable (· = boot) AttendedStep s) : s.Served := by
  refine Live.served (Run.Reachable.invariant (I := Live) ?_ (fun _ _ _ h step => h.step step) h)
  rintro _ rfl
  exact ⟨nofun, fun h => absurd rfl h⟩

/-- A byte is submitted, and the post of the work item fails. -/
def failedPost : List DoorbellEvent :=
  [.call 0x40, .put 0x40, .swap, .submit, .work, .post false, .clear]

/-- The byte waits for another one. -/
theorem byte_stranded : ∃ s, Run.Reachable (· = boot) Step s ∧ ¬ s.Served := by
  obtain ⟨s, hrun, htest⟩ := Run.exists_of_follow step (fun _ _ => true) failedPost boot
    (fun s => s = { boot with msgq := [0x40] }) (by decide +kernel)
  refine ⟨s, Run.Reachable.follow (fun _ _ _ _ h => h) (.start rfl) hrun, fun h => ?_⟩
  rw [of_decide_eq_true htest] at h
  rcases h ⟨rfl, rfl, rfl, rfl, rfl⟩ (List.cons_ne_nil _ _) with h | h
  · cases h
  · exact h rfl

/-- The same, but another byte is put before the work item clears the flag. -/
def attendedPost : List DoorbellEvent :=
  [.call 0x40, .put 0x40, .swap, .submit, .work, .post false, .call 0x41, .put 0x41, .clear, .swap,
    .submit]

/-- Both bytes wait, and the call that has put the second has submitted the work item. -/
def bothWaiting : Doorbell := { boot with msgq := [0x40, 0x41], pending := true, work := true }

/-- A failed post that another byte attends to leaves nothing behind. -/
theorem byte_served :
    Run.follow step (fun s e => decide (e ≠ .clear ∨ s.Attended)) attendedPost boot =
        some bothWaiting ∧
      (bothWaiting.work = true ∨ bothWaiting.posted ≠ 0) := by
  have hrun : Run.follow step (fun s e => decide (e ≠ .clear ∨ s.Attended)) attendedPost boot =
      some bothWaiting := by
    decide +kernel
  have reachable : Run.Reachable (· = boot) AttendedStep bothWaiting :=
    Run.Reachable.follow (fun s e s' hcheck hstep =>
      ⟨hstep, (of_decide_eq_true hcheck).resolve_left ∘ not_not.mpr⟩) (.start rfl) hrun
  exact ⟨hrun, served_of_attended reachable ⟨rfl, rfl, rfl, rfl, rfl⟩ (List.cons_ne_nil _ _)⟩

end Doorbell

end Rtbus.Cli
