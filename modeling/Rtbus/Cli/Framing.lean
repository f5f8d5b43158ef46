import Rtbus.Cli.Input

/-!
# Line framing

`Framed` says where the control lines of the received stream are: some have been dispatched, and the
rest is what the CLI task has collected of a line, the queue, and what the interrupt still has to
submit, one behind the other. A byte that is dropped breaks this, and nothing else does.
-/

namespace Rtbus.Cli

open Rtbus.Serial Rtbus.Lines

/-- The control lines of a stream are on their way: they have been dispatched up to a point, and the
others are collected, queued or being submitted. -/
structure Framed (s : Input) (todo : List (List UInt8)) : Prop where
  router : RouterAt s.router (current endsLine s.received)
  enabled : s.inputEnabled = true
  lines : controlLines s.received = s.lines ++ todo
  bytes : s.line ++ (s.msgq ++ s.submitting) = frame lf todo
  line : lf ∉ s.line

/-- The input is being taken care of: bytes are queued only if the task will look at the queue, or
the next step will make it do so. -/
structure Awake (s : Input) : Prop where
  pending : s.pending = true → s.work = true ∨ s.posted ≠ 0 ∨ s.pc = .reading ∨ s.pc = .clearing
  queued : s.msgq ≠ [] → s.pending = true ∨ s.signalling = true ∨ s.pc = .checking

variable {s s' : Input} {todo : List (List UInt8)}

/-- What moves no byte keeps the lines. -/
theorem Framed.of_same (h : Framed s todo) (router : s'.router = s.router)
    (enabled : s'.inputEnabled = s.inputEnabled) (received : s'.received = s.received)
    (lines : s'.lines = s.lines) (line : s'.line = s.line)
    (bytes : s'.msgq ++ s'.submitting = s.msgq ++ s.submitting) : Framed s' todo := by
  refine ⟨?_, enabled.trans h.enabled, ?_, ?_, ?_⟩
  · rw [router, received]
    exact h.router
  · rw [received, lines]
    exact h.lines
  · rw [line, bytes]
    exact h.bytes
  · rw [line]
    exact h.line

/-- A byte from the interrupt is on its way to the queue. -/
theorem Framed.receive (h : Framed s todo) {byte : UInt8} (step : s.receive byte = some s') :
    ∃ todo', Framed s' todo' := by
  unfold Input.receive at step
  split at step
  · rename_i hfree
    cases step
    obtain ⟨hrouter, new, hlines, hnew⟩ := route_spec byte h.router
    refine ⟨todo ++ new, hrouter, h.enabled, ?_, ?_, h.line⟩
    · show controlLines (s.received ++ [byte]) = s.lines ++ (todo ++ new)
      rw [hlines, h.lines, List.append_assoc]
    · have hbytes := h.bytes
      rw [hfree.1, List.append_nil] at hbytes
      show s.line ++ (s.msgq ++ (s.router.routePort0Byte byte).submitted) = _
      rw [hnew, ← List.append_assoc, hbytes]
      unfold frame
      rw [List.flatMap_append]
  · cases step

/-- A byte that finds room in the queue arrives there. -/
theorem Framed.submit (h : Framed s todo) (room : s.msgq.length < inputQueueDepth)
    (step : s.submit = some s') : Framed s' todo := by
  unfold Input.submit at step
  split at step
  · rename_i byte rest _ hsubmitting
    dsimp only at step
    rw [h.enabled, if_neg (by decide), if_neg (Nat.not_le.mpr room)] at step
    cases step
    refine h.of_same rfl h.enabled.symm rfl rfl rfl ?_
    show s.msgq ++ [byte] ++ rest = s.msgq ++ s.submitting
    rw [hsubmitting, List.append_assoc]
    rfl
  · cases step

/-- The task gets a byte: the terminator of the line it has collected, or a byte of a line that fits
the buffer. -/
theorem Framed.byte (h : Framed s todo) {byte : UInt8} {rest : List UInt8}
    (hmsgq : s.msgq = byte :: rest) :
    ∃ todo', Framed ({ s with msgq := rest }.rtbusCliProcessByte byte) todo' := by
  obtain ⟨hrouter, henabled, hlines, hbytes, hline⟩ := h
  rw [hmsgq] at hbytes
  obtain ⟨first, others, htodo, hfront⟩ := front_of_frame hline hbytes
  have hmem : first ∈ controlLines s.received := by
    rw [hlines, htodo]
    exact List.mem_append_right _ List.mem_cons_self
  obtain ⟨hfree, hnonempty, hfits⟩ := mem_controlLines hmem
  rcases hfront with ⟨hend, hwhole, htail⟩ | ⟨hbyte, hmore⟩
  · refine ⟨others, ?_⟩
    have hdispatch : { s with msgq := rest }.rtbusCliProcessByte byte =
        { s with msgq := rest, line := [], lines := s.lines ++ [s.line] } := by
      unfold Input.rtbusCliProcessByte Input.rtbusCliDispatchLine
      rw [if_pos (.inr hend), if_neg (by rw [hwhole]; exact hnonempty)]
    rw [hdispatch]
    refine ⟨hrouter, henabled, ?_, htail, List.not_mem_nil⟩
    show controlLines s.received = s.lines ++ [s.line] ++ others
    rw [hlines, htodo, hwhole, List.append_assoc]
    rfl
  · refine ⟨todo, ?_⟩
    have hother := hfree byte hbyte
    have hcollect : { s with msgq := rest }.rtbusCliProcessByte byte =
        { s with msgq := rest, line := s.line ++ [byte] } := by
      unfold Input.rtbusCliProcessByte
      rw [if_neg hother, if_neg (Nat.not_le.mpr (Nat.lt_of_lt_of_le hmore hfits))]
    rw [hcollect]
    refine ⟨hrouter, henabled, hlines, ?_, fun h => ?_⟩
    · rw [← hbytes, List.append_assoc]
      rfl
    · rcases List.mem_append.mp h with h | h
      · exact hline h
      · exact hother (.inr (List.mem_singleton.mp h).symm)

/-- Signalling changes who will look at the queue, not what is in it. -/
theorem submitWork_frame (s : Input) : s.submitWork =
    { s with pending := s.submitWork.pending, work := s.submitWork.work } := by
  unfold Input.submitWork
  split <;> rfl

/-- So it leaves the bytes on their way. -/
theorem Framed.submitWork (h : Framed s todo) : Framed s.submitWork todo := by
  rw [submitWork_frame]
  exact h.of_same rfl rfl rfl rfl rfl rfl

/-- The task takes the bytes in order. -/
theorem Framed.turn (h : Framed s todo) (step : s.turn = some s') : ∃ todo', Framed s' todo' := by
  unfold Input.turn at step
  split at step
  case h_1 => cases step
  case h_2 byte rest _ hmsgq =>
    cases step
    exact h.byte hmsgq
  case h_5 =>
    cases step
    exact ⟨todo, h.of_same rfl rfl rfl rfl rfl rfl⟩
  case h_6 =>
    cases step
    exact ⟨todo, h.submitWork.of_same rfl rfl rfl rfl rfl rfl⟩
  all_goals
    cases step
    exact ⟨todo, h.of_same rfl rfl rfl rfl rfl rfl⟩

/-- Every step in which a byte finds room keeps the lines. -/
theorem Framed.step (h : Framed s todo) {e : InputEvent} (step : s.RoomyStep e s') :
    ∃ todo', Framed s' todo' := by
  obtain ⟨step, room⟩ := step
  cases e with
  | receive byte => exact h.receive step
  | submit => exact ⟨todo, h.submit (room rfl) step⟩
  | signal =>
    have step : s.signal = some s' := step
    unfold Input.signal at step
    split at step <;> cases step
    exact ⟨todo, h.submitWork.of_same rfl rfl rfl rfl rfl rfl⟩
  | work =>
    have step : s.runWork = some s' := step
    unfold Input.runWork at step
    split at step <;> cases step
    exact ⟨todo, h.of_same rfl rfl rfl rfl rfl rfl⟩
  | run =>
    have step : s.run = some s' := step
    unfold Input.run at step
    split at step <;> cases step
    exact ⟨todo, h.of_same rfl rfl rfl rfl rfl rfl⟩
  | turn => exact h.turn step

/-! ## The queue is served -/

/-- Behind a signal somebody is on the way to the queue. -/
theorem Awake.submitWork (h : Awake s) : s.submitWork.pending = true ∧
    (s.submitWork.work = true ∨ s.posted ≠ 0 ∨ s.pc = .reading ∨ s.pc = .clearing) := by
  unfold Input.submitWork
  split
  · rename_i hpending
    exact ⟨hpending, h.pending hpending⟩
  · exact ⟨rfl, .inl rfl⟩

/-- A byte that is processed changes the line and the calls. -/
theorem processByte_frame (s : Input) (byte : UInt8) : s.rtbusCliProcessByte byte =
    { s with
      line := (s.rtbusCliProcessByte byte).line, lines := (s.rtbusCliProcessByte byte).lines } := by
  unfold Input.rtbusCliProcessByte Input.rtbusCliDispatchLine
  split
  · split <;> rfl
  · split <;> rfl

/-- The task leaves nobody waiting. -/
theorem Awake.turn (h : Awake s) (step : s.turn = some s') : Awake s' := by
  unfold Input.turn at step
  split at step
  case h_1 => cases step
  case h_2 byte rest hpc hmsgq =>
    cases step
    rw [processByte_frame]
    refine ⟨fun _ => .inr (.inr (.inl hpc)), fun _ => ?_⟩
    have queued := h.queued (by rw [hmsgq]; exact List.cons_ne_nil _ _)
    rwa [hpc] at queued ⊢
  case h_3 hpc hmsgq =>
    cases step
    exact ⟨fun _ => .inr (.inr (.inr rfl)), fun hne => absurd hmsgq hne⟩
  case h_4 =>
    cases step
    exact ⟨nofun, fun _ => .inr (.inr rfl)⟩
  case h_5 hpc hmsgq =>
    cases step
    refine ⟨fun hpending => ?_, fun hne => absurd hmsgq hne⟩
    have pending := h.pending hpending
    rw [hpc] at pending
    rcases pending with hwork | hposted | hread | hclear
    · exact .inl hwork
    · exact .inr (.inl hposted)
    · cases hread
    · cases hclear
  case h_6 hpc hmsgq =>
    cases step
    obtain ⟨hpending, hserved⟩ := h.submitWork
    rw [submitWork_frame]
    refine ⟨fun _ => ?_, fun _ => .inl hpending⟩
    rw [hpc] at hserved
    rcases hserved with hwork | hposted | hread | hclear
    · exact .inl hwork
    · exact .inr (.inl hposted)
    · cases hread
    · cases hclear

/-- One step keeps it: bytes wait only while somebody is told. -/
theorem Awake.step (h : Awake s) {e : InputEvent} (step : s.Step e s') : Awake s' := by
  cases e with
  | receive byte =>
    have step : s.receive byte = some s' := step
    unfold Input.receive at step
    split at step <;> cases step
    exact ⟨h.pending, h.queued⟩
  | submit =>
    have step : s.submit = some s' := step
    unfold Input.submit at step
    split at step
    · dsimp only at step
      split at step
      · cases step
        exact ⟨h.pending, h.queued⟩
      · split at step <;> cases step
        · exact ⟨h.pending, h.queued⟩
        · exact ⟨h.pending, fun _ => .inr (.inl rfl)⟩
    · cases step
  | signal =>
    have step : s.signal = some s' := step
    unfold Input.signal at step
    split at step <;> cases step
    obtain ⟨hpending, hserved⟩ := h.submitWork
    rw [submitWork_frame]
    exact ⟨fun _ => hserved, fun _ => .inl hpending⟩
  | work =>
    have step : s.runWork = some s' := step
    unfold Input.runWork at step
    split at step <;> cases step
    exact ⟨fun _ => .inr (.inl (Nat.succ_ne_zero _)), h.queued⟩
  | run =>
    have step : s.run = some s' := step
    unfold Input.run at step
    split at step <;> cases step
    rename_i hidle
    refine ⟨fun _ => .inr (.inr (.inl rfl)), fun hne => ?_⟩
    have queued := h.queued hne
    rw [hidle.1] at queued
    rcases queued with hpending | hsignal | hcheck
    · exact .inl hpending
    · exact .inr (.inl hsignal)
    · cases hcheck
  | turn => exact h.turn step

/-- As long as bytes are queued, the work item or the task has a step to take, or the interrupt is
about to submit the work item. -/
theorem Awake.progress (h : Awake s) (hmsgq : s.msgq ≠ []) :
    ∃ e s', (∀ byte, e ≠ .receive byte) ∧ s.Step e s' := by
  have busy : s.signalling = true ∨ s.work = true ∨ (s.pc = .idle ∧ s.posted ≠ 0) ∨
      s.pc ≠ .idle := by
    by_cases hpc : s.pc = .idle
    · rcases h.queued hmsgq with hpending | hsignal | hcheck
      · rcases h.pending hpending with hwork | hposted | hread | hclear
        · exact .inr (.inl hwork)
        · exact .inr (.inr (.inl ⟨hpc, hposted⟩))
        · exact .inr (.inr (.inr (by rw [hread]; nofun)))
        · exact .inr (.inr (.inr (by rw [hclear]; nofun)))
      · exact .inl hsignal
      · exact .inr (.inr (.inr (by rw [hcheck]; nofun)))
    · exact .inr (.inr (.inr hpc))
  rcases busy with hsignal | hwork | hrun | hpc
  · exact ⟨.signal, _, nofun, if_pos hsignal⟩
  · exact ⟨.work, _, nofun, if_pos hwork⟩
  · exact ⟨.run, _, nofun, if_pos hrun⟩
  · have taken : ∃ s', s.turn = some s' := by
      unfold Input.turn
      split
      · rename_i hidle
        exact absurd hidle hpc
      all_goals exact ⟨_, rfl⟩
    obtain ⟨s', step⟩ := taken
    exact ⟨.turn, s', nofun, step⟩

/-! ## Runs -/

/-- In a run in which every submitted byte finds room: whenever the input is drained, the dispatched
lines are the complete control lines of the received stream; and until then the input is served. -/
theorem lines_of_room (h : Run.Reachable (· = Input.boot) Input.RoomyStep s) :
    (s.submitting = [] → s.msgq = [] → s.lines = controlLines s.received) ∧
      (s.msgq ≠ [] → ∃ e s', (∀ byte, e ≠ .receive byte) ∧ s.Step e s') := by
  obtain ⟨⟨todo, framed⟩, awake⟩ : (∃ todo, Framed s todo) ∧ Awake s := by
    refine Run.Reachable.invariant (I := fun s => (∃ todo, Framed s todo) ∧ Awake s) ?_ ?_ h
    · rintro _ rfl
      exact ⟨⟨[], routerAt_init, rfl, rfl, rfl, List.not_mem_nil⟩, nofun, fun h => absurd rfl h⟩
    · rintro s e s' ⟨⟨todo, framed⟩, awake⟩ step
      exact ⟨framed.step step, awake.step step.1⟩
  refine ⟨fun hsubmitting hmsgq => ?_, awake.progress⟩
  have hbytes := framed.bytes
  rw [hmsgq, hsubmitting, List.append_nil, List.append_nil] at hbytes
  have hlines := framed.lines
  rw [eq_nil_of_frame framed.line hbytes, List.append_nil] at hlines
  exact hlines.symm

/-- A byte that finds the queue full is dropped. -/
theorem dropped_of_full {byte : UInt8} {rest : List UInt8} (enabled : s.inputEnabled = true)
    (hsubmitting : s.submitting = byte :: rest) (hsignal : s.signalling = false)
    (full : inputQueueDepth ≤ s.msgq.length) : s.submit = some { s with submitting := rest } := by
  unfold Input.submit
  rw [hsubmitting, hsignal]
  dsimp only
  rw [enabled, if_neg (by decide), if_pos full]

/-- The stream of a control line of a length. -/
def longLine (length : Nat) : List UInt8 := at_ :: List.replicate (length - 1) 0x61

/-- A line is received and submitted while the task does not run, and then the task empties the
queue. -/
def lineThenTask (length queued : Nat) : List InputEvent :=
  (longLine length ++ [lf]).map .receive ++ (List.replicate queued [.submit, .signal]).flatten ++
    List.replicate (length + 1 - queued) .submit ++
    [.work, .run] ++ List.replicate (queued + 3) .turn

/-- Whether the submitted byte finds room. -/
def roomy (s : Input) (e : InputEvent) : Bool := e != .submit || s.msgq.length < inputQueueDepth

/-- A step that the check lets pass finds room. -/
theorem roomyStep_of_test {e : InputEvent} (check : roomy s e = true) (step : Input.step e s = some s') :
    s.RoomyStep e s' := by
  refine ⟨step, ?_⟩
  rintro rfl
  exact of_decide_eq_true check

/-- A line that fits the queue is dispatched. -/
theorem short_line_framed : ∃ s, Run.Reachable (· = Input.boot) Input.RoomyStep s ∧
    s.submitting = [] ∧ s.msgq = [] ∧ s.lines = controlLines s.received ∧ s.lines ≠ [] := by
  obtain ⟨s, run, htest⟩ := Run.exists_of_follow Input.step roomy (lineThenTask 3 4) Input.boot
    (fun s => s.submitting.isEmpty && s.msgq.isEmpty && !s.lines.isEmpty) (by decide +kernel)
  simp only [Bool.and_eq_true, List.isEmpty_iff, Bool.not_eq_true', List.isEmpty_eq_false_iff] at htest
  obtain ⟨⟨hsubmitting, hmsgq⟩, hlines⟩ := htest
  have reach : Run.Reachable (· = Input.boot) Input.RoomyStep s :=
    .follow (fun _ _ _ => roomyStep_of_test) (.start rfl) run
  exact ⟨s, reach, hsubmitting, hmsgq, (lines_of_room reach).1 hsubmitting hmsgq, hlines⟩

/-- A control line of 200 bytes is not dispatched if the task does not run while the interrupt
submits it: the queue takes 128 bytes, and the line feed is dropped with the others. -/
theorem long_line_lost :
    ¬ ∀ s, Run.Reachable (· = Input.boot) Input.Step s → s.submitting = [] → s.msgq = [] →
      s.lines = controlLines s.received := by
  intro always
  obtain ⟨s, run, htest⟩ := Run.exists_of_follow Input.step (fun _ _ => true)
    (lineThenTask 200 128) Input.boot (fun s => s.submitting.isEmpty && s.msgq.isEmpty &&
      decide (s.lines ≠ controlLines s.received)) (by decide +kernel)
  simp only [Bool.and_eq_true, List.isEmpty_iff, decide_eq_true_eq] at htest
  obtain ⟨⟨hsubmitting, hmsgq⟩, hlines⟩ := htest
  have reach : Run.Reachable (· = Input.boot) Input.Step s :=
    .follow (fun _ _ _ _ h => h) (.start rfl) run
  exact hlines (always s reach hsubmitting hmsgq)

end Rtbus.Cli
