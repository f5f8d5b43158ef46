import Rtbus.Base.RoundRobin
import Rtbus.Emos.Init

/-!
# Polling goes round

`emos_process` polls one task when it finds nothing queued. Whatever is posted, moved or dispatched
in between, nothing but a poll moves `poll_next_index` (`SamePolls`), and a poll is a turn of the
entries that want to be polled, whose handler is called with `POLL` (`pollFrom_turn`). So the polls of
a run go round these entries in the order of the table (`polls_fair`).
-/

namespace Rtbus.Emos

open Rtbus.Pool RoundRobin

variable {H : Type} {payloadMax : Nat}

/-- The registry and the index of the next poll are as they were, and the log goes on. -/
structure SamePolls (s s' : Bus H (Log H)) : Prop where
  backend : s'.backend = s.backend
  entryCount : s'.entryCount = s.entryCount
  pollNextIndex : s'.pollNextIndex = s.pollNextIndex
  log : s.rest <+: s'.rest

theorem SamePolls.refl (s : Bus H (Log H)) : SamePolls s s := ⟨rfl, rfl, rfl, List.prefix_rfl⟩

/-- Steps that leave the polls alone, one behind the other. -/
theorem SamePolls.trans {s₁ s₂ s₃ : Bus H (Log H)} (h : SamePolls s₁ s₂) (h' : SamePolls s₂ s₃) :
    SamePolls s₁ s₃ :=
  ⟨h'.backend.trans h.backend, h'.entryCount.trans h.entryCount,
    h'.pollNextIndex.trans h.pollNextIndex, h.log.trans h'.log⟩

/-- A note leaves the polls alone. -/
theorem note_samePolls (s : Bus H (Log H)) (e : LogEntry H) : SamePolls s (note s e) :=
  ⟨rfl, rfl, rfl, List.prefix_append _ _⟩

/-! ## What leaves the polls alone -/

/-- A post changes queues and heap, and nothing of the polls. -/
theorem emosPost_samePolls {s s' : Bus H (Log H)} {args : PostArgs} {ret : Ret}
    (h : emosPost s args = some (s', ret)) : SamePolls s s' := by
  rw [emosPost_shape h]
  exact ⟨rfl, rfl, rfl, List.prefix_rfl⟩

/-- Neither does a post with its hook. -/
theorem rtbusPost_samePolls {s s' : Bus H (Log H)} {args : PostArgs} {ret : Ret}
    (h : rtbusPost s args = some (s', ret)) : SamePolls s s' := by
  unfold rtbusPost at h
  split at h
  · cases h
  · next hpost => cases h; exact emosPost_samePolls hpost
  · next hpost => cases h; exact emosPost_samePolls hpost

/-- None of the calls that a handler can make polls a task. -/
theorem Act.perform_samePolls {a : Act} {s s' : Bus H (Log H)} {ret : Ret}
    (h : a.perform payloadMax s = some (s', ret)) : SamePolls s s' := by
  cases a with
  | post args => exact rtbusPost_samePolls h
  | advance ms => cases h; exact ⟨rfl, rfl, rfl, List.prefix_rfl⟩
  | postDelay args delayMs =>
    change rtbusPostDelay payloadMax s args delayMs = _ at h
    unfold rtbusPostDelay at h
    split at h
    · exact rtbusPost_samePolls h
    · split at h
      · cases h; exact .refl s
      · split at h
        · cases h; exact .refl s
        · split at h
          · cases h; exact .refl s
          · cases h; exact ⟨rfl, rfl, rfl, List.prefix_rfl⟩

/-- Nor do they with what they return thrown away. -/
theorem Act.run_samePolls {a : Act} {s s' : Bus H (Log H)} (h : a.run payloadMax s = some s') :
    SamePolls s s' := by
  unfold Act.run at h
  split at h
  · cases h
  · next hperform =>
    cases h
    exact (Act.perform_samePolls hperform).trans (note_samePolls _ _)

/-- A handler polls nobody, whatever it calls. -/
theorem runActs_samePolls {acts : List Act} {s s' : Bus H (Log H)}
    (h : runActs payloadMax acts s = some s') : SamePolls s s' := by
  induction acts generalizing s with
  | nil => cases h; exact ⟨rfl, rfl, rfl, List.prefix_rfl⟩
  | cons a as ih =>
    unfold runActs at h
    split at h
    · cases h
    · next hrun => exact (Act.run_samePolls hrun).trans (ih h)

/-- The loop over the delayed events posts only. -/
theorem moveDueFrom_samePolls {nowMs : UInt32} {slots slots' : List DelayedEvent}
    {s s' : Bus H (Log H)} {ret : Ret} (h : moveDueFrom nowMs slots s = some (s', slots', ret)) :
    SamePolls s s' := by
  induction slots generalizing s slots' with
  | nil => cases h; exact ⟨rfl, rfl, rfl, List.prefix_rfl⟩
  | cons event rest ih =>
    unfold moveDueFrom at h
    split at h
    · split at h
      · cases h
      · next hrest => cases h; exact ih hrest
    · split at h
      · cases h
      · next hpost => cases h; exact emosPost_samePolls hpost
      · next hpost =>
        split at h
        · cases h
        · next hrest => cases h; exact (emosPost_samePolls hpost).trans (ih hrest)

/-- So does the whole move. -/
theorem moveDueEvents_samePolls {s s' : Bus H (Log H)} {ret : Ret}
    (h : moveDueEvents s = some (s', ret)) : SamePolls s s' := by
  unfold moveDueEvents at h
  split at h
  · cases h
  · next hmove => cases h; exact (moveDueFrom_samePolls hmove).trans ⟨rfl, rfl, rfl, List.prefix_rfl⟩

/-- Taking an event out of its queue polls nobody. -/
theorem removeNode_samePolls {s s' : Bus H (Log H)} {p node : Nat} (h : removeNode s p node = some s') :
    SamePolls s s' := by
  unfold removeNode at h
  split at h
  · cases h
  · cases h; exact ⟨rfl, rfl, rfl, List.prefix_rfl⟩

/-- A handler leaves the polls alone, and its call is noted. -/
def Handle.Discreet (handle : Handle H (Log H)) : Prop :=
  ∀ f ctx s s', handle f ctx s = some s' → SamePolls (note s (.called f ctx)) s'

/-- A call that serves a queued event does not come to the polls. -/
theorem dispatchFirst_samePolls {handle : Handle H (Log H)} (hhandle : handle.Discreet) {s s' : Bus H (Log H)}
    {outcome : Outcome H} {p : Nat} (h : dispatchFirst handle s p = some (s', outcome)) :
    SamePolls s s' ∧ outcome ≠ .idle ∧ ∀ entry, outcome ≠ .polled entry := by
  unfold dispatchFirst at h
  dsimp only at h
  split at h
  · obtain ⟨s₁, hremove, heq⟩ := Option.map_eq_some_iff.mp h
    cases heq
    exact ⟨removeNode_samePolls hremove, nofun, nofun⟩
  · next entry _ =>
    cases htask : entry.taskEntry with
    | none =>
      rw [htask] at h
      obtain ⟨s₁, hremove, heq⟩ := Option.map_eq_some_iff.mp h
      cases heq
      exact ⟨removeNode_samePolls hremove, nofun, nofun⟩
    | some f =>
      rw [htask] at h
      dsimp only at h
      split at h
      · cases h
      · next hcall =>
        obtain ⟨s₂, hremove, heq⟩ := Option.map_eq_some_iff.mp h
        cases heq
        exact ⟨((note_samePolls _ _).trans (hhandle _ _ _ _ hcall)).trans
          (removeNode_samePolls hremove), nofun, nofun⟩

/-- The stage of the queued events found the queues empty, or it dispatched. -/
theorem processQueuedFrom_cases {handle : Handle H (Log H)} (hhandle : handle.Discreet) {s s' : Bus H (Log H)}
    {outcome : Outcome H} {left start : Nat}
    (h : processQueuedFrom handle s left start = some (s', outcome)) :
    (s' = s ∧ outcome = .idle ∧ ∀ p, start ≤ p → p < start + left → s.taskTbl p = null) ∨
      (SamePolls s s' ∧ outcome ≠ .idle ∧ ∀ entry, outcome ≠ .polled entry) := by
  induction left generalizing start with
  | zero =>
    cases h
    exact .inl ⟨rfl, rfl, fun p hle hlt => absurd hlt (Nat.not_lt.mpr hle)⟩
  | succ left ih =>
    unfold processQueuedFrom at h
    split at h
    · exact .inr (dispatchFirst_samePolls hhandle h)
    · next hempty =>
      obtain ⟨hs, hidle, hrest⟩ | hdispatched := ih h
      · refine .inl ⟨hs, hidle, fun p hle hlt => ?_⟩
        rcases Nat.eq_or_lt_of_le hle with rfl | hgt
        · exact not_ne_iff.mp hempty
        · exact hrest p hgt (by omega)
      · exact .inr hdispatched

/-! ## A poll is a turn -/

/-- The entry wants to be polled and can be. -/
def Entry.pollable (entry : Entry H) : Bool := entry.always && entry.taskEntry.isSome

/-- The event of a poll. -/
def Entry.pollCtx (entry : Entry H) : Ctx :=
  { taskId := entry.taskId, id := sysEvt sysPoll, payload := [] }

/-- The call of its handler in a poll. -/
def Entry.pollCall (entry : Entry H) : Option (LogEntry H) :=
  entry.taskEntry.map fun f => .called f entry.pollCtx

/-- These are the entries of the bus, and its index of the next poll is one of theirs. -/
structure Enrolled (s : Bus H (Log H)) (entries : List (Entry H)) : Prop where
  count : s.entryCount = entries.length
  listed : ∀ i < entries.length, s.backend.getByIndex i = entries[i]?
  index : s.pollNextIndex < entries.length

/-- Who is enrolled depends on the registry. -/
theorem Enrolled.congr {s s' : Bus H (Log H)} {entries : List (Entry H)} (h : Enrolled s entries)
    (same : SamePolls s s') : Enrolled s' entries where
  count := same.entryCount.trans h.count
  listed := by rw [same.backend]; exact h.listed
  index := by rw [same.pollNextIndex]; exact h.index

/-- What a call of the poll stage does: it finds nobody, or it is the turn of an entry. -/
theorem pollFrom_turn (handle : Handle H (Log H)) {s : Bus H (Log H)} {entries : List (Entry H)}
    (h : Enrolled s entries) (left i : Nat) (hleft : i + left = entries.length)
    (hskip : ∀ j < i, ∀ b, entries[(s.pollNextIndex + j) % entries.length]? = some b →
      b.pollable = false) :
    pollFrom handle s left i = some (s, .idle) ∨
      ∃ index entry f, IsNext Entry.pollable entries s.pollNextIndex index entry ∧
        entry.taskEntry = some f ∧
        pollFrom handle s left i = (handle f entry.pollCtx s).map fun s =>
          ({ s with pollNextIndex := (index + 1) % s.entryCount }, .polled entry) := by
  induction left generalizing i with
  | zero => exact .inl rfl
  | succ left ih =>
    have hpos : 0 < entries.length := by omega
    have hindex : (s.pollNextIndex + i) % entries.length < entries.length := Nat.mod_lt _ hpos
    have hget := h.listed _ hindex
    rw [List.getElem?_eq_getElem hindex] at hget
    have hmore : entries[(s.pollNextIndex + i) % entries.length].pollable = false →
        ∀ j < i + 1, ∀ b, entries[(s.pollNextIndex + j) % entries.length]? = some b →
          b.pollable = false := by
      intro hno j hj b hb
      rcases Nat.lt_or_ge j i with hlt | hge
      · exact hskip j hlt b hb
      · rw [show j = i by omega, List.getElem?_eq_getElem hindex] at hb
        exact Option.some.inj hb ▸ hno
    unfold pollFrom
    rw [h.count]
    dsimp only
    rw [hget]
    generalize hentry : entries[(s.pollNextIndex + i) % entries.length] = entry at *
    dsimp only
    cases halways : entry.always with
    | false =>
      exact ih (i + 1) (by omega) (hmore (by rw [Entry.pollable, halways]; rfl))
    | true =>
      cases htask : entry.taskEntry with
      | none => exact ih (i + 1) (by omega) (hmore (by rw [Entry.pollable, halways, htask]; rfl))
      | some f =>
        refine .inr ⟨_, entry, f, ⟨?_, ?_, i, by omega, rfl, hskip⟩, htask, ?_⟩
        · rw [List.getElem?_eq_getElem hindex, hentry]
        · rw [Entry.pollable, halways, htask]
          rfl
        · rfl

/-- The entries that a call polled. -/
def Outcome.polls : Outcome H → List (Entry H)
  | .polled entry => [entry]
  | _ => []

/-- These polls are calls of their handlers in the log, in this order. -/
def Called (s s' : Bus H (Log H)) (polls : List (Entry H)) : Prop :=
  ∃ log calls : Log H, s'.rest = s.rest ++ log ∧ polls.map Entry.pollCall = calls.map some ∧
    calls.Sublist log

/-- The handler calls of two stretches. -/
theorem Called.trans {s₁ s₂ s₃ : Bus H (Log H)} {polls polls' : List (Entry H)}
    (h : Called s₁ s₂ polls) (h' : Called s₂ s₃ polls') : Called s₁ s₃ (polls ++ polls') := by
  obtain ⟨log, calls, hlog, hcalls, hsub⟩ := h
  obtain ⟨log', calls', hlog', hcalls', hsub'⟩ := h'
  refine ⟨log ++ log', calls ++ calls', ?_, ?_, hsub.append hsub'⟩
  · rw [hlog', hlog, List.append_assoc]
  · rw [List.map_append, List.map_append, hcalls, hcalls']

/-- A stretch that polls nobody has made no such call. -/
theorem SamePolls.called {s s' : Bus H (Log H)} (h : SamePolls s s') : Called s s' [] := by
  obtain ⟨log, hlog⟩ := h.log
  exact ⟨log, [], hlog.symm, rfl, List.nil_sublist _⟩

/-- One turn, as the index of the next poll and the log see it. -/
structure Turned (entries : List (Entry H)) (s s' : Bus H (Log H)) (polls : List (Entry H)) : Prop where
  enrolled : Enrolled s' entries
  called : Called s s' polls
  inTurn : ∀ more, InTurn (entries.filter Entry.pollable)
      (rank Entry.pollable entries s'.pollNextIndex) more →
    InTurn (entries.filter Entry.pollable) (rank Entry.pollable entries s.pollNextIndex)
      (polls ++ more)

theorem Turned.of_same {entries : List (Entry H)} {s s' : Bus H (Log H)} (h : Enrolled s entries)
    (same : SamePolls s s') : Turned entries s s' [] where
  enrolled := h.congr same
  called := same.called
  inTurn more hmore := by rwa [same.pollNextIndex] at hmore

/-- The poll stage. -/
theorem emosProcessPollEvent_turned {handle : Handle H (Log H)} (hhandle : handle.Discreet)
    {s s' : Bus H (Log H)} {outcome : Outcome H} {entries : List (Entry H)} (h : Enrolled s entries)
    (hcall : emosProcessPollEvent handle s = some (s', outcome)) :
    Turned entries s s' outcome.polls ∧ ∀ entry, outcome = .polled entry →
      ∃ f s₁, entry.taskEntry = some f ∧ handle f entry.pollCtx s = some s₁ ∧
        s' = { s₁ with pollNextIndex := s'.pollNextIndex } := by
  unfold emosProcessPollEvent at hcall
  obtain hnone | ⟨index, entry, f, hnext, htask, hpoll⟩ := pollFrom_turn handle h s.entryCount 0
    (by rw [h.count, Nat.zero_add]) fun j hj => absurd hj (Nat.not_lt_zero j)
  · rw [hnone] at hcall
    cases hcall
    exact ⟨.of_same h (.refl s), nofun⟩
  · rw [hpoll] at hcall
    obtain ⟨s₁, hrun, heq⟩ := Option.map_eq_some_iff.mp hcall
    cases heq
    have noted := hhandle _ _ _ _ hrun
    have same := (note_samePolls s _).trans noted
    have called : Called s { s₁ with pollNextIndex := (index + 1) % s₁.entryCount } [entry] := by
      obtain ⟨log, hlog⟩ := noted.log
      refine ⟨.called f entry.pollCtx :: log, [.called f entry.pollCtx], ?_, ?_, ?_⟩
      · rw [← hlog]
        exact List.append_assoc _ _ _
      · rw [List.map_singleton, List.map_singleton, Entry.pollCall, htask]
        rfl
      · exact List.singleton_sublist.mpr List.mem_cons_self
    obtain ⟨hturn, hrank⟩ := turn h.index hnext
    have hcount : s₁.entryCount = entries.length := same.entryCount.trans h.count
    have hpos : 0 < entries.length := Nat.lt_of_le_of_lt (Nat.zero_le _) h.index
    refine ⟨⟨⟨hcount, (h.congr same).listed, ?_⟩, called, fun more hmore => ?_⟩,
      fun entry' heq => by cases heq; exact ⟨f, s₁, htask, hrun, rfl⟩⟩
    · change (index + 1) % s₁.entryCount < entries.length
      rw [hcount]
      exact Nat.mod_lt _ hpos
    · change InTurn _ (rank Entry.pollable entries ((index + 1) % s₁.entryCount)) more at hmore
      rw [hcount] at hmore
      exact InTurn.cons hturn (hmore.congr hrank)

/-- A call of `rtbus_process` with any hook and handlers that leave the polls alone. -/
theorem rtbusProcess_turned {async : Bus H (Log H) → Option (Bus H (Log H) × Ret)} {handle : Handle H (Log H)}
    (hasync : ∀ s s' ret, async s = some (s', ret) → SamePolls s s') (hhandle : handle.Discreet)
    {s s' : Bus H (Log H)} {outcome : Outcome H} {entries : List (Entry H)} (h : Enrolled s entries)
    (hcall : rtbusProcess async handle s = some (s', outcome)) :
    Turned entries s s' outcome.polls ∧ ∀ entry, outcome = .polled entry →
      ∃ s₁ s₂ f s₃, moveDueEvents s = some (s₁, .ok) ∧ async s₁ = some (s₂, .ok) ∧
        (∀ p < taskPriorityNumber, s₂.taskTbl p = null) ∧ entry.taskEntry = some f ∧
        handle f entry.pollCtx s₂ = some s₃ ∧
        s' = { s₃ with pollNextIndex := s'.pollNextIndex } := by
  unfold rtbusProcess at hcall
  split at hcall
  · cases hcall
  · next hmove =>
    cases hcall
    exact ⟨.of_same h (moveDueEvents_samePolls hmove), nofun⟩
  · next s₁ hmove =>
    have same₁ := moveDueEvents_samePolls hmove
    unfold emosProcess at hcall
    split at hcall
    · cases hcall
      exact ⟨.of_same h same₁, nofun⟩
    · split at hcall
      · cases hcall
      · next hhook =>
        cases hcall
        exact ⟨.of_same h (same₁.trans (hasync _ _ _ hhook)), nofun⟩
      · next s₂ hhook =>
        have same₂ := same₁.trans (hasync _ _ _ hhook)
        unfold dispatchOrPoll at hcall
        split at hcall
        · cases hcall
        · next s₃ hqueued =>
          obtain ⟨rfl, _, hempty⟩ | ⟨_, hidle, _⟩ := processQueuedFrom_cases hhandle hqueued
          · obtain ⟨hturned, hpolled⟩ :=
              emosProcessPollEvent_turned hhandle (h.congr same₂) hcall
            refine ⟨⟨hturned.enrolled, same₂.called.trans hturned.called, fun more hmore => ?_⟩,
              fun entry heq => ?_⟩
            · have := hturned.inTurn more hmore
              rwa [same₂.pollNextIndex] at this
            · obtain ⟨f, s₄, htask, hrun, hs'⟩ := hpolled entry heq
              exact ⟨s₁, s₃, f, s₄, hmove, hhook,
                fun p hp => hempty p (Nat.zero_le _) (by rwa [Nat.zero_add]), htask, hrun, hs'⟩
          · exact absurd rfl hidle
        · next s₃ outcome₃ hother hqueued =>
          cases hcall
          obtain ⟨rfl, rfl, _⟩ | ⟨same, _, hpolled⟩ := processQueuedFrom_cases hhandle hqueued
          · exact (hother rfl).elim
          · have hnone : outcome.polls = [] := by
              cases outcome with
              | polled entry => exact absurd rfl (hpolled entry)
              | _ => rfl
            rw [hnone]
            exact ⟨.of_same h (same₂.trans same), fun entry heq => absurd heq (hpolled entry)⟩

/-! ## Runs -/

/-- What happens to the bus: an act, or a call of `rtbus_process` with the acts of the hook for
asynchronous posts, its result, and the acts of the handler that is called, if any. -/
inductive Turn
  | act (a : Act)
  | process (hook : List Act) (ret : Ret) (handler : List Act)

/-- `rtbus_process` with this hook and this handler. -/
def processTurn (payloadMax : Nat) (hook : List Act) (ret : Ret) (handler : List Act)
    (s : Bus H (Log H)) : Option (Bus H (Log H) × Outcome H) :=
  rtbusProcess (fun s => (runActs payloadMax hook s).map fun s => (s, ret))
    (handlerOf payloadMax handler) s

/-- A run, with the entries that were polled. -/
def runTurns (payloadMax : Nat) :
    List Turn → Bus H (Log H) → Option (Bus H (Log H) × List (Entry H))
  | [], s => some (s, [])
  | .act a :: rest, s => (a.run payloadMax s).bind (runTurns payloadMax rest)
  | .process hook ret handler :: rest, s =>
    (processTurn payloadMax hook ret handler s).bind fun r =>
      (runTurns payloadMax rest r.1).map fun t => (t.1, r.2.polls ++ t.2)

/-- A handler that makes these calls is discreet. -/
theorem handlerOf_discreet (acts : List Act) :
    (handlerOf payloadMax acts : Handle H (Log H)).Discreet := fun _ _ _ _ h => runActs_samePolls h

/-- One call of `rtbus_process` polls the next task in turn or none, and calls the handler of the
one that it polls. -/
theorem processTurn_turned {hook handler : List Act} {ret : Ret} {s s' : Bus H (Log H)}
    {outcome : Outcome H} {entries : List (Entry H)} (h : Enrolled s entries)
    (hcall : processTurn payloadMax hook ret handler s = some (s', outcome)) :
    Turned entries s s' outcome.polls ∧ ∀ entry, outcome = .polled entry →
      ∃ s₁ s₂ f s₃, moveDueEvents s = some (s₁, .ok) ∧ runActs payloadMax hook s₁ = some s₂ ∧
        ret = .ok ∧ (∀ p < taskPriorityNumber, s₂.taskTbl p = null) ∧ entry.taskEntry = some f ∧
        runActs payloadMax handler (note s₂ (.called f entry.pollCtx)) = some s₃ ∧
        s' = { s₃ with pollNextIndex := s'.pollNextIndex } := by
  have hasync : ∀ s s' : Bus H (Log H), ∀ r,
      ((runActs payloadMax hook s).map fun s => (s, ret)) = some (s', r) → SamePolls s s' := by
    intro s s' r hrun
    obtain ⟨s₁, hacts, heq⟩ := Option.map_eq_some_iff.mp hrun
    cases heq
    exact runActs_samePolls hacts
  obtain ⟨hturned, hempty⟩ := rtbusProcess_turned hasync (handlerOf_discreet handler) h hcall
  refine ⟨hturned, fun entry heq => ?_⟩
  obtain ⟨s₁, s₂, f, s₃, hmove, hhook, hnull, htask, hrun, hs'⟩ := hempty entry heq
  obtain ⟨s₄, hacts, heq⟩ := Option.map_eq_some_iff.mp hhook
  obtain ⟨rfl, rfl⟩ := Prod.mk.inj heq
  exact ⟨s₁, s₄, f, s₃, hmove, hacts, rfl, hnull, htask, hrun, hs'⟩

/-- From step to run: the polls of any number of calls are in turn, and so are the handler calls. -/
theorem runTurns_inTurn {turns : List Turn} {s s' : Bus H (Log H)} {entries polls : List (Entry H)}
    (h : Enrolled s entries) (hrun : runTurns payloadMax turns s = some (s', polls)) :
    Enrolled s' entries ∧ Called s s' polls ∧ InTurn (entries.filter Entry.pollable)
      (rank Entry.pollable entries s.pollNextIndex) polls := by
  induction turns generalizing s polls with
  | nil =>
    cases hrun
    exact ⟨h, (SamePolls.refl _).called, InTurn.nil _ _⟩
  | cons t rest ih =>
    cases t with
    | act a =>
      obtain ⟨s₁, hact, hrest⟩ := Option.bind_eq_some_iff.mp hrun
      have hturned := Turned.of_same h (Act.run_samePolls hact)
      obtain ⟨henrolled, hcalled, hpolls⟩ := ih hturned.enrolled hrest
      exact ⟨henrolled, hturned.called.trans hcalled, hturned.inTurn polls hpolls⟩
    | process hook ret handler =>
      obtain ⟨⟨s₁, outcome⟩, hcall, hmap⟩ := Option.bind_eq_some_iff.mp hrun
      obtain ⟨⟨s₂, polls₂⟩, hrest, heq⟩ := Option.map_eq_some_iff.mp hmap
      cases heq
      have hturned := (processTurn_turned h hcall).1
      obtain ⟨henrolled, hcalled, hpolls⟩ := ih hturned.enrolled hrest
      exact ⟨henrolled, hturned.called.trans hcalled, hturned.inTurn polls₂ hpolls⟩

/-! ## From the initialisation on -/

/-- The entries of a registry. -/
def Backend.entries : Backend H → List (Entry H)
  | .table none => []
  | .table (some entries) => entries
  | .iterable entries => entries

/-- The entries that the bus goes over. -/
def registered (s : Bus H (Log H)) : List (Entry H) := s.backend.entries.take s.entryCount

/-- Those of them that want to be polled, in the order of the table. -/
def alwaysEntries (s : Bus H (Log H)) : List (Entry H) := (registered s).filter (·.always)

/-- Both registries count their entries the same way. -/
theorem Backend.getByIndex_eq (b : Backend H) (index : Nat) :
    b.getByIndex index = b.entries[index]? := by
  cases b with
  | table registered => cases registered <;> rfl
  | iterable entries => rfl

/-- An accepted registry is counted in full or in part, and all its entries have handlers. -/
theorem Backend.init_entries {b b' : Backend H} {entryTbl : Option (EntryTable H)} {count : Nat}
    (h : b.init entryTbl = (b', .ok, count)) :
    count ≤ b'.entries.length ∧ ∀ entry ∈ b'.entries, entry.taskEntry.isSome = true := by
  have handlers : ∀ entries : List (Entry H), checkEntries entries entries = .ok →
      ∀ entry ∈ entries, entry.taskEntry.isSome = true := fun entries hcheck entry mem =>
    Option.isSome_iff_exists.mpr (checkEntries_ok hcheck entry mem).2
  cases b with
  | table registered =>
    cases entryTbl with
    | none => cases h
    | some tbl =>
      unfold Backend.init at h
      dsimp only at h
      split at h
      · cases h
      · split at h
        · next hcheck =>
          cases h
          exact ⟨Nat.le_refl _, handlers _ hcheck⟩
        · cases h
  | iterable entries =>
    unfold Backend.init at h
    dsimp only at h
    split at h
    · next hcheck =>
      split at h
      · cases h
      · cases h
        exact ⟨Nat.mod_le _ _, handlers _ hcheck⟩
    · cases h

/-- The INIT events of `rtbus_init` are posts. -/
theorem postInitEvents_samePolls {count index : Nat} {s s' : Bus H (Log H)} {ret : Ret}
    (h : postInitEvents count index s = some (s', ret)) : SamePolls s s' := by
  induction count generalizing index s with
  | zero => cases h; exact .refl _
  | succ count ih =>
    unfold postInitEvents at h
    split at h
    · cases h; exact .refl _
    · split at h
      · split at h
        · cases h
        · next hpost => cases h; exact emosPost_samePolls hpost
        · next hpost => exact (emosPost_samePolls hpost).trans (ih h)
      · exact ih h

/-- The bus that `rtbus_init` leaves polls its first entry first. -/
theorem rtbusInit_enrolled {b s : Bus H (Log H)} {poolAddr poolSize : Nat}
    {entryTbl : Option (EntryTable H)} (h : rtbusInit b poolAddr poolSize entryTbl = some (s, .ok)) :
    Enrolled s (registered s) ∧ s.pollNextIndex = 0 ∧
      (registered s).filter Entry.pollable = alwaysEntries s := by
  have hinit : emosInit (resetDelayedEvents b) poolAddr poolSize entryTbl = some (s, .ok) := by
    unfold rtbusInit at h
    split at h
    · cases h
    · next heq => cases h; exact heq
    · cases h
  unfold emosInit at hinit
  split at hinit
  · cases hinit
  · next s₁ hpool =>
    split at hinit
    · cases hinit
    · next backend count hbackend =>
      have same := postInitEvents_samePolls hinit
      obtain ⟨hle, handlers⟩ := Backend.init_entries hbackend
      have hcount : s.entryCount = count := same.entryCount
      have hentries : s.backend.entries = backend.entries := congrArg Backend.entries same.backend
      have hindex : s.pollNextIndex = 0 := by
        refine same.pollNextIndex.trans ?_
        unfold emosInitPool at hpool
        dsimp only at hpool
        split at hpool
        · cases hpool
        · cases hpool; rfl
      have hlen : (registered s).length = s.entryCount := by
        rw [registered, List.length_take, hentries, hcount]
        exact Nat.min_eq_left hle
      refine ⟨⟨hlen.symm, fun i hi => ?_, ?_⟩, hindex, ?_⟩
      · rw [hlen] at hi
        rw [Backend.getByIndex_eq, registered, List.getElem?_take_of_lt hi]
      · rw [hlen, hindex, hcount]
        exact (Backend.init_ok hbackend).2
      · refine List.filter_congr fun entry mem => ?_
        have mem' : entry ∈ backend.entries := hentries ▸ List.mem_of_mem_take mem
        rw [Entry.pollable, handlers entry mem', Bool.and_true]

/-- From `rtbus_init` on, whatever is posted, moved and dispatched: of as many polls in a row as
there are entries with the `always` flag, each of them has one, in the order of the table round its
end; nobody else is polled; the log has the polls, in this order, as calls of their handlers with
`POLL`; and a call that polls has found every queue empty, and calls the handler then. -/
theorem polls_fair {b s₀ s : Bus H (Log H)} {poolAddr poolSize : Nat}
    {entryTbl : Option (EntryTable H)} {turns : List Turn} {polls : List (Entry H)}
    (init : rtbusInit b poolAddr poolSize entryTbl = some (s₀, .ok))
    (run : runTurns payloadMax turns s₀ = some (s, polls)) :
    (∀ i, i + (alwaysEntries s₀).length ≤ polls.length →
      (polls.drop i).take (alwaysEntries s₀).length = (alwaysEntries s₀).rotate i) ∧
    (∀ entry ∈ polls, entry ∈ registered s₀ ∧ entry.always = true) ∧
    (alwaysEntries s₀ = [] → polls = []) ∧
    (∃ log calls : Log H, s.rest = s₀.rest ++ log ∧ polls.map Entry.pollCall = calls.map some ∧
      calls.Sublist log) ∧
    ∀ hook ret handler s' entry,
      processTurn payloadMax hook ret handler s = some (s', .polled entry) →
      ∃ s₁ s₂ f s₃, moveDueEvents s = some (s₁, .ok) ∧ runActs payloadMax hook s₁ = some s₂ ∧
        ret = .ok ∧ (∀ p < taskPriorityNumber, s₂.taskTbl p = null) ∧ entry.taskEntry = some f ∧
        runActs payloadMax handler (note s₂ (.called f entry.pollCtx)) = some s₃ ∧
        s' = { s₃ with pollNextIndex := s'.pollNextIndex } := by
  obtain ⟨henrolled, hindex, hfilter⟩ := rtbusInit_enrolled init
  obtain ⟨henrolled', hcalled, hpolls⟩ := runTurns_inTurn henrolled run
  rw [hfilter, hindex] at hpolls
  have hmem : ∀ entry ∈ polls, entry ∈ alwaysEntries s₀ := fun entry h => hpolls.mem h
  refine ⟨fun i hi => ?_, fun entry h => List.mem_filter.mp (hmem entry h), fun hnone => ?_,
    hcalled, fun hook ret handler s' entry h => (processTurn_turned henrolled' h).2 entry rfl⟩
  · have hwindow := hpolls.window hi
    rwa [show rank Entry.pollable (registered s₀) 0 = 0 from rfl, Nat.zero_add] at hwindow
  · rw [hnone] at hmem
    exact List.eq_nil_iff_forall_not_mem.mpr fun entry h => List.not_mem_nil (hmem entry h)

/-- A table with two tasks to poll and one between them that is not polled. -/
def pollTable : EntryTable Unit :=
  { entries := [⟨1, 0, some (), false, true⟩, ⟨2, 1, some (), false, false⟩,
      ⟨3, 2, some (), false, true⟩]
    count_lt := by decide }

theorem pollTable_polled : ∃ (s₀ s : Bus Unit (Log Unit)) (polls : List (Entry Unit)),
    rtbusInit (Bus.boot (.table none)) 0x20001000 256 (some pollTable) = some (s₀, .ok) ∧
    runTurns 32 (List.replicate 3 (.process [] .ok [])) s₀ = some (s, polls) ∧ polls.length = 3 ∧
    (polls.drop 1).take (alwaysEntries s₀).length = (alwaysEntries s₀).rotate 1 ∧
    ∃ log calls : Log Unit, s.rest = s₀.rest ++ log ∧ polls.map Entry.pollCall = calls.map some ∧
      calls.Sublist log := by
  obtain ⟨s₀, init, hrun, halways⟩ : ∃ s₀ : Bus Unit (Log Unit),
      rtbusInit (Bus.boot (.table none)) 0x20001000 256 (some pollTable) = some (s₀, .ok) ∧
      (runTurns 32 (List.replicate 3 (.process [] .ok [])) s₀).map (·.2.length) = some 3 ∧
      (alwaysEntries s₀).length = 2 := ⟨_, rfl, rfl, rfl⟩
  obtain ⟨⟨s, polls⟩, run, hlen⟩ := Option.map_eq_some_iff.mp hrun
  dsimp only at hlen
  obtain ⟨window, _, _, hcalled, _⟩ := polls_fair init run
  exact ⟨s₀, s, polls, init, run, hlen, window 1 (by rw [halways, hlen]), hcalled⟩

end Rtbus.Emos
