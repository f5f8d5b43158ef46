import Mathlib.Algebra.BigOperators.Group.Finset.Piecewise
import Mathlib.Algebra.Order.Group.Nat

/-!
# A courier with two stages

What the two queues between an application and its servers are for, with nothing of how they are
kept. An item is accepted into a first queue, taken from there into one of `N` queues, and served;
the `N` queues also hold events that are not items (`none`). A stop empties the first queue and
begins a new era. `Rules` says which items may be refused when they are taken from the first queue,
which events complete, in which era an item was accepted, and when a stop may happen.

Two laws. Without stops every accepted item is in exactly one place, exactly once (`Conserved`). And
if no event that completes is under way at a stop, every completion is that of an item of the era in
which it happens (`Timely`).
-/

namespace Rtbus.Native

variable {α : Type}

/-- The items accepted, waiting in the first queue and refused; the `N` queues; the events served so
far, the last of them perhaps still being served; and the completions with their eras. -/
structure Courier (α : Type) where
  accepted : List α
  waiting : List α
  queued : Nat → List (Option α)
  served : List (Option α)
  serving : Option (Option α)
  refused : List α
  era : Nat
  completions : List (Option α × Nat)

namespace Courier

/-- What the steps depend on. -/
structure Rules (α : Type) where
  eraOf : α → Nat
  mayRefuse : α → Prop
  completes : Option α → Prop
  mayStop : Courier α → Prop

/-- The steps of a courier with `N` queues. -/
inductive Step (N : Nat) (R : Rules α) (c : Courier α) : Courier α → Prop
  | accept (x : α) (fresh : x ∉ c.accepted) (now : R.eraOf x = c.era) :
      Step N R c { c with accepted := c.accepted ++ [x], waiting := c.waiting ++ [x] }
  | push (p : Nat) (hp : p < N) :
      Step N R c { c with queued := Function.update c.queued p (c.queued p ++ [none]) }
  | take (x : α) (rest : List α) (p : Nat) (hp : p < N) (first : c.waiting = x :: rest) :
      Step N R c { c with
        waiting := rest, queued := Function.update c.queued p (c.queued p ++ [some x]) }
  | refuse (x : α) (rest : List α) (first : c.waiting = x :: rest) (may : R.mayRefuse x) :
      Step N R c { c with waiting := rest, refused := c.refused ++ [x] }
  | serve (tag : Option α) (rest : List (Option α)) (p : Nat) (hp : p < N)
      (first : c.queued p = tag :: rest) :
      Step N R c { c with
        queued := Function.update c.queued p rest, served := c.served ++ [tag]
        serving := some tag }
  | complete (tag : Option α) (current : c.serving = some tag) (completes : R.completes tag) :
      Step N R c { c with completions := c.completions ++ [(tag, c.era)] }
  | finish : Step N R c { c with serving := none }
  | stop (era : Nat) (may : R.mayStop c) : Step N R c { c with waiting := [], era := era }

variable [DecidableEq α]

/-- How often an item is in the `N` queues. -/
def queuedCount (N : Nat) (queued : Nat → List (Option α)) (x : α) : Nat :=
  ∑ p ∈ Finset.range N, (queued p).count (some x)

/-- Changing one queue changes the count by what that queue holds. -/
theorem queuedCount_update {N p : Nat} (hp : p < N) (queued : Nat → List (Option α))
    (l : List (Option α)) (x : α) :
    queuedCount N (Function.update queued p l) x + (queued p).count (some x) =
      queuedCount N queued x + l.count (some x) := by
  have hmem : p ∈ Finset.range N := Finset.mem_range.mpr hp
  have hcomp : (fun p' => (Function.update queued p l p').count (some x)) =
      Function.update (fun p' => (queued p').count (some x)) p (l.count (some x)) :=
    funext fun p' => Function.apply_update (fun _ l => List.count (some x) l) queued p l p'
  unfold queuedCount
  rw [hcomp, Finset.sum_update_of_mem hmem,
    Finset.sum_eq_add_sum_sdiff_singleton_of_mem hmem fun p' => (queued p').count (some x)]
  omega

/-- Every accepted item is in exactly one place, and no other item is anywhere. -/
structure Conserved (N : Nat) (c : Courier α) : Prop where
  nodup : c.accepted.Nodup
  balance : ∀ x, c.accepted.count x =
    c.waiting.count x + queuedCount N c.queued x + c.served.count (some x) + c.refused.count x

/-- Nothing is lost or duplicated by any step but a stop. -/
theorem Conserved.step {N : Nat} {R : Rules α} {c c' : Courier α} (h : c.Conserved N)
    (noStop : ∀ c, ¬ R.mayStop c) (step : Step N R c c') : c'.Conserved N := by
  have balance := h.balance
  cases step with
  | accept x fresh _ =>
    refine ⟨?_, fun y => ?_⟩
    · refine List.nodup_append.mpr ⟨h.nodup, by simp, fun y hy z hz => ?_⟩
      rw [List.mem_singleton.mp hz]
      exact fun heq => fresh (heq ▸ hy)
    · have := balance y
      simp only [List.count_append]
      omega
  | push p hp =>
    refine ⟨h.nodup, fun y => ?_⟩
    have hcount := queuedCount_update hp c.queued (c.queued p ++ [none]) y
    have := balance y
    simp only [List.count_append, List.count_cons, List.count_nil, beq_iff_eq, reduceCtorEq,
      if_false] at hcount
    dsimp only
    omega
  | take x rest p hp first =>
    refine ⟨h.nodup, fun y => ?_⟩
    have hcount := queuedCount_update hp c.queued (c.queued p ++ [some x]) y
    have := balance y
    rw [first] at this
    simp only [List.count_append, List.count_cons, List.count_nil, beq_iff_eq, Option.some.injEq]
      at hcount this
    dsimp only
    omega
  | refuse x rest first _ =>
    refine ⟨h.nodup, fun y => ?_⟩
    have := balance y
    rw [first] at this
    simp only [List.count_append, List.count_cons, List.count_nil] at this ⊢
    omega
  | serve tag rest p hp first =>
    refine ⟨h.nodup, fun y => ?_⟩
    have hcount := queuedCount_update hp c.queued rest y
    have := balance y
    rw [first] at hcount
    simp only [List.count_append, List.count_cons, List.count_nil] at hcount this ⊢
    omega
  | complete _ _ _ => exact ⟨h.nodup, balance⟩
  | finish => exact ⟨h.nodup, balance⟩
  | stop _ may => exact absurd may (noStop c)

omit [DecidableEq α] in
/-- Only items that may be refused are. -/
theorem Step.refused {N : Nat} {R : Rules α} {c c' : Courier α} (step : Step N R c c')
    (h : ∀ x ∈ c.refused, R.mayRefuse x) : ∀ x ∈ c'.refused, R.mayRefuse x := by
  cases step with
  | refuse x rest first may =>
    intro y hy
    rcases List.mem_append.mp hy with hy | hy
    · exact h y hy
    · rw [List.mem_singleton.mp hy]
      exact may
  | _ => exact h

/-- An accepted item that may not be refused waits in the first queue, or is in one of the others,
or has been served once; it is in one of these places only. -/
theorem Conserved.place {N : Nat} {R : Rules α} {c : Courier α} (h : c.Conserved N)
    (refused : ∀ x ∈ c.refused, R.mayRefuse x) {x : α} (mem : x ∈ c.accepted)
    (kept : ¬ R.mayRefuse x) :
    c.waiting.count x + queuedCount N c.queued x + c.served.count (some x) = 1 := by
  have hone := List.count_eq_one_of_mem h.nodup mem
  have hnone : c.refused.count x = 0 := List.count_eq_zero.mpr fun hx => kept (refused x hx)
  have := h.balance x
  omega

/-- Everything under way was accepted, in the current era if it completes, and so were the
completions. -/
structure Timely (R : Rules α) (c : Courier α) : Prop where
  waiting : ∀ x ∈ c.waiting, x ∈ c.accepted ∧ R.eraOf x = c.era
  queued : ∀ p x, some x ∈ c.queued p →
    x ∈ c.accepted ∧ (R.completes (some x) → R.eraOf x = c.era)
  serving : ∀ x, c.serving = some (some x) →
    x ∈ c.accepted ∧ (R.completes (some x) → R.eraOf x = c.era)
  completions : ∀ d ∈ c.completions, ∃ x ∈ c.accepted, d.1 = some x ∧ R.eraOf x = d.2

/-- Nothing that completes is under way behind the first queue. -/
def Clear (R : Rules α) (c : Courier α) : Prop :=
  (∀ p x, some x ∈ c.queued p → ¬ R.completes (some x)) ∧
    ∀ x, c.serving = some (some x) → ¬ R.completes (some x)

omit [DecidableEq α] in
/-- If stops happen only when nothing that completes is under way, and nothing but items completes,
every completion is of the era in which it happens. -/
theorem Timely.step {N : Nat} {R : Rules α} {c c' : Courier α} (h : c.Timely R)
    (items : ¬ R.completes none) (clear : ∀ c, R.mayStop c → c.Clear R)
    (step : Step N R c c') : c'.Timely R := by
  cases step with
  | accept x _ now =>
    have later : ∀ {y}, y ∈ c.accepted → y ∈ c.accepted ++ [x] :=
      fun hy => List.mem_append_left _ hy
    refine ⟨fun y hy => ?_, fun p y hy => ?_, fun y hy => ?_, fun d hd => ?_⟩
    · rcases List.mem_append.mp hy with hy | hy
      · exact ⟨later (h.waiting y hy).1, (h.waiting y hy).2⟩
      · rw [List.mem_singleton.mp hy]
        exact ⟨List.mem_append_right _ (List.mem_singleton.mpr rfl), now⟩
    · exact ⟨later (h.queued p y hy).1, (h.queued p y hy).2⟩
    · exact ⟨later (h.serving y hy).1, (h.serving y hy).2⟩
    · obtain ⟨y, hy, hd⟩ := h.completions d hd
      exact ⟨y, later hy, hd⟩
  | push p hp =>
    refine ⟨h.waiting, fun p' y hy => ?_, h.serving, h.completions⟩
    refine h.queued p' y ?_
    by_cases hp' : p' = p
    · subst hp'
      simpa using hy
    · simpa [hp'] using hy
  | take x rest p hp first =>
    have hwait : ∀ y ∈ x :: rest, y ∈ c.accepted ∧ R.eraOf y = c.era :=
      fun y hy => h.waiting y (first ▸ hy)
    refine ⟨fun y hy => hwait y (List.mem_cons_of_mem _ hy), fun p' y hy => ?_, h.serving,
      h.completions⟩
    by_cases hp' : p' = p
    · subst hp'
      simp only [Function.update_self, List.mem_append, List.mem_singleton] at hy
      rcases hy with hy | hy
      · exact h.queued p' y hy
      · cases hy
        obtain ⟨hacc, hera⟩ := hwait x (List.mem_cons_self ..)
        exact ⟨hacc, fun _ => hera⟩
    · exact h.queued p' y (by simpa [hp'] using hy)
  | refuse x rest first _ =>
    exact ⟨fun y hy => h.waiting y (first ▸ List.mem_cons_of_mem _ hy), h.queued, h.serving,
      h.completions⟩
  | serve tag rest p hp first =>
    refine ⟨h.waiting, fun p' y hy => ?_, fun y hy => ?_, h.completions⟩
    · by_cases hp' : p' = p
      · subst hp'
        refine h.queued p' y ?_
        rw [first]
        exact List.mem_cons_of_mem _ (by simpa using hy)
      · exact h.queued p' y (by simpa [hp'] using hy)
    · refine h.queued p y ?_
      rw [first, Option.some.inj hy]
      exact List.mem_cons_self ..
  | complete tag current completes =>
    refine ⟨h.waiting, h.queued, h.serving, fun d hd => ?_⟩
    rcases List.mem_append.mp hd with hd | hd
    · exact h.completions d hd
    · rw [List.mem_singleton.mp hd]
      cases tag with
      | none => exact absurd completes items
      | some x =>
        obtain ⟨hacc, hera⟩ := h.serving x current
        exact ⟨x, hacc, rfl, hera completes⟩
  | finish => exact ⟨h.waiting, h.queued, by simp, h.completions⟩
  | stop era may =>
    obtain ⟨hqueued, hserving⟩ := clear c may
    exact ⟨by simp, fun p x hx => ⟨(h.queued p x hx).1, fun hc => absurd hc (hqueued p x hx)⟩,
      fun x hx => ⟨(h.serving x hx).1, fun hc => absurd hc (hserving x hx)⟩, h.completions⟩

end Courier

end Rtbus.Native
