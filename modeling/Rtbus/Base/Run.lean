/-!
# Runs of a step relation

A component is given by the states it may start in and a relation that says which states a step
with a label may lead to. `Reachable` is every state of every run, and `Reachable.invariant` is the
induction over runs: what holds at the start and is kept by each step holds throughout.

`Trace` is a run with its labels. A relation between the states of two components such that every
step of the first is matched by a step of the second with the same label carries over whole runs
(`Trace.simulate`): the second component can do whatever the first one does.
-/

namespace Rtbus.Run

variable {σ τ α : Type _}

/-- The states of all runs: the ones to start in, and those a step leads to. -/
inductive Reachable (start : σ → Prop) (step : σ → α → σ → Prop) : σ → Prop
  | start {s : σ} : start s → Reachable start step s
  | step {s s' : σ} {a : α} : Reachable start step s → step s a s' → Reachable start step s'

/-- What holds at the start and is kept by every step holds in every reachable state. -/
theorem Reachable.invariant {start : σ → Prop} {step : σ → α → σ → Prop} {I : σ → Prop}
    (base : ∀ s, start s → I s) (keep : ∀ s a s', I s → step s a s' → I s') {s : σ}
    (h : Reachable start step s) : I s := by
  induction h with
  | start h => exact base _ h
  | step _ h ih => exact keep _ _ _ ih h

/-- The sequence of steps with given labels, as long as every step passes a check. -/
def follow (step : α → σ → Option σ) (check : σ → α → Bool) : List α → σ → Option σ
  | [], s => some s
  | a :: as, s => if check s a then (step a s).bind (follow step check as) else none

/-- What such a sequence leads to is reachable, if steps that pass the check are ones of the run. -/
theorem Reachable.follow {start : σ → Prop} {Step : σ → α → σ → Prop} {step : α → σ → Option σ}
    {check : σ → α → Bool}
    (steps : ∀ s a s', check s a = true → step a s = some s' → Step s a s') {as : List α} {s s' : σ}
    (h : Reachable start Step s) (run : follow step check as s = some s') :
    Reachable start Step s' := by
  induction as generalizing s with
  | nil =>
    cases run
    exact h
  | cons a as ih =>
    unfold Run.follow at run
    split at run
    · rename_i hcheck
      obtain ⟨s₁, hstep, hrun⟩ := Option.bind_eq_some_iff.mp run
      exact ih (h.step (steps s a s₁ hcheck hstep)) hrun
    · cases run

/-- A sequence that ends as tested, with its end. -/
theorem exists_of_follow (step : α → σ → Option σ) (check : σ → α → Bool) (as : List α) (s : σ)
    (test : σ → Bool) (h : (follow step check as s).any test = true) :
    ∃ s', follow step check as s = some s' ∧ test s' = true := by
  cases hrun : Run.follow step check as s with
  | none =>
    rw [hrun] at h
    cases h
  | some s' =>
    rw [hrun] at h
    exact ⟨s', rfl, h⟩

/-- Likewise for a sequence from a state that may not exist. -/
theorem exists_of_bind_follow (step : α → σ → Option σ) (check : σ → α → Bool) (as : List α)
    (start : Option σ) (test : σ → Bool) (h : (start.bind (follow step check as)).any test = true) :
    ∃ s s', start = some s ∧ follow step check as s = some s' ∧ test s' = true := by
  cases start with
  | none => cases h
  | some s =>
    obtain ⟨s', run, htest⟩ := exists_of_follow step check as s test h
    exact ⟨s, s', rfl, run, htest⟩

/-- A run from one state to another with the labels of its steps. -/
inductive Trace (step : σ → α → σ → Prop) : σ → List α → σ → Prop
  | nil {s : σ} : Trace step s [] s
  | cons {s s' s'' : σ} {a : α} {as : List α} :
      step s a s' → Trace step s' as s'' → Trace step s (a :: as) s''

/-- The sequence of steps that `follow` takes is a run. -/
theorem Trace.of_follow {Step : σ → α → σ → Prop} {step : α → σ → Option σ} {check : σ → α → Bool}
    (steps : ∀ s a s', check s a = true → step a s = some s' → Step s a s') {as : List α} {s s' : σ}
    (run : follow step check as s = some s') : Trace Step s as s' := by
  induction as generalizing s with
  | nil =>
    cases run
    exact .nil
  | cons a as ih =>
    unfold Run.follow at run
    split at run
    · rename_i hcheck
      obtain ⟨s₁, hstep, hrun⟩ := Option.bind_eq_some_iff.mp run
      exact .cons (steps s a s₁ hcheck hstep) (ih hrun)
    · cases run

/-- Two runs, one behind the other. -/
theorem Trace.append {step : σ → α → σ → Prop} {s s' s'' : σ} {as bs : List α}
    (run : Trace step s as s') (run' : Trace step s' bs s'') : Trace step s (as ++ bs) s'' := by
  induction run with
  | nil => exact run'
  | cons hstep _ ih => exact .cons hstep (ih run')

/-- A simulation carries over whole runs. -/
theorem Trace.simulate {step : σ → α → σ → Prop} {step' : τ → α → τ → Prop} {R : σ → τ → Prop}
    (sim : ∀ s t a s', R s t → step s a s' → ∃ t', step' t a t' ∧ R s' t') {s s' : σ} {t : τ}
    {as : List α} (run : Trace step s as s') (h : R s t) : ∃ t', Trace step' t as t' ∧ R s' t' := by
  induction run generalizing t with
  | nil => exact ⟨t, .nil, h⟩
  | cons hstep _ ih =>
    obtain ⟨t₁, hstep', h₁⟩ := sim _ _ _ _ h hstep
    obtain ⟨t₂, hrun', h₂⟩ := ih h₁
    exact ⟨t₂, .cons hstep' hrun', h₂⟩

end Rtbus.Run
