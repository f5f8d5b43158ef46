import Mathlib.Data.List.Basic
import Mathlib.Logic.Function.Basic
import Rtbus.Base.Run

/-!
# Priority queues

Things wait in a queue for each priority, 0 being the most urgent. In a turn the oldest thing of the
most urgent queue that has one is served; before and after it more may arrive, and a turn in which
nothing waits serves nothing. Between turns things may arrive as well.

How long something waits is a matter of counting (`trace_waits`). The place in line of a thing is the
number of things in more urgent queues and of those in front of it in its own. Each turn takes one
away, each more urgent arrival adds one, and nothing else changes it; so along any run turns and
places add up, and the thing is served in the turn that finds it at place 0.
-/

namespace Rtbus.Priority

variable {α : Type _}

/-- What waits in each queue, oldest first. -/
abbrev Queues (α : Type _) := Nat → List α

/-- Those of some arrivals that are of a priority. -/
def ofPriority (p : Nat) (xs : List (Nat × α)) : List α := (xs.filter (·.1 = p)).map Prod.snd

/-- Each arrival goes to the end of its queue. -/
def enqueue (c : Queues α) (xs : List (Nat × α)) : Queues α := fun p => c p ++ ofPriority p xs

/-- What is served next, and what stays behind it in its queue. -/
structure First (c : Queues α) (p : Nat) (x : α) (rest : List α) : Prop where
  head : c p = x :: rest
  above : ∀ p' < p, c p' = []

/-- What can be seen of a step. -/
inductive Label (α : Type _)
  /-- Things arrive between turns. -/
  | arrive (xs : List (Nat × α))
  /-- A turn that serves something, and what arrives before and after it. -/
  | serve (pre : List (Nat × α)) (x : α) (post : List (Nat × α))
  /-- A turn that finds nothing. -/
  | rest (pre post : List (Nat × α))

/-- Everything that arrives in a step. -/
def Label.arrivals : Label α → List (Nat × α)
  | .arrive xs => xs
  | .serve pre _ post => pre ++ post
  | .rest pre post => pre ++ post

/-- The number of turns of a step. -/
def Label.turns : Label α → Nat
  | .arrive _ => 0
  | _ => 1

/-- Everything that arrives in a run. -/
def arrivals (ls : List (Label α)) : List (Nat × α) := ls.flatMap Label.arrivals

/-- The number of turns of a run. -/
def turns : List (Label α) → Nat
  | [] => 0
  | l :: ls => l.turns + turns ls

/-- A step of the queues. -/
inductive Step : Queues α → Label α → Queues α → Prop
  | arrive {c : Queues α} (xs : List (Nat × α)) : Step c (.arrive xs) (enqueue c xs)
  | serve {c : Queues α} {pre post : List (Nat × α)} {p : Nat} {x : α} {rest : List α} :
      First (enqueue c pre) p x rest →
      Step c (.serve pre x post) (enqueue (Function.update (enqueue c pre) p rest) post)
  | rest {c : Queues α} {pre post : List (Nat × α)} :
      (∀ p, enqueue c pre p = []) → Step c (.rest pre post) (enqueue c (pre ++ post))

/-- What waits in the queues before one, in the order in which it would be served. -/
def upTo (c : Queues α) (p : Nat) : List α := (List.range p).flatMap c

/-- How many of some arrivals are more urgent than a priority. -/
def overtaking (p : Nat) (xs : List (Nat × α)) : Nat := xs.countP (·.1 < p)

/-! ## Arrivals -/

/-- Arrivals of one priority in two stretches. -/
@[simp] theorem ofPriority_append (p : Nat) (xs ys : List (Nat × α)) :
    ofPriority p (xs ++ ys) = ofPriority p xs ++ ofPriority p ys := by
  unfold ofPriority
  rw [List.filter_append, List.map_append]

/-- A queue holds what it held, and behind it the arrivals of its priority. -/
theorem enqueue_apply (c : Queues α) (xs : List (Nat × α)) (p : Nat) :
    enqueue c xs p = c p ++ ofPriority p xs := rfl

/-- Arrivals in two stretches are enqueued one behind the other. -/
theorem enqueue_append (c : Queues α) (xs ys : List (Nat × α)) :
    enqueue c (xs ++ ys) = enqueue (enqueue c xs) ys := by
  funext p
  unfold enqueue
  rw [ofPriority_append, List.append_assoc]

@[simp] theorem enqueue_nil (c : Queues α) : enqueue c [] = c := by
  funext p
  exact List.append_nil _

/-- Those that overtake add up. -/
@[simp] theorem overtaking_append (p : Nat) (xs ys : List (Nat × α)) :
    overtaking p (xs ++ ys) = overtaking p xs + overtaking p ys := List.countP_append

/-- The queues up to the next priority. -/
theorem upTo_succ (c : Queues α) (p : Nat) : upTo c (p + 1) = upTo c p ++ c p := by
  unfold upTo
  rw [List.range_succ, List.flatMap_append, List.flatMap_singleton]

/-- Only the queues before it count. -/
theorem upTo_congr {c c' : Queues α} {p : Nat} (same : ∀ p' < p, c' p' = c p') :
    upTo c' p = upTo c p := by
  unfold upTo
  exact List.flatMap_congr fun p' hp => same p' (List.mem_range.mp hp)

/-- They are empty exactly if each is. -/
theorem upTo_eq_nil {c : Queues α} {p : Nat} : upTo c p = [] ↔ ∀ p' < p, c p' = [] := by
  unfold upTo
  simp only [List.flatMap_eq_nil_iff, List.mem_range]

/-- The more urgent arrivals are those of one of the queues before. -/
theorem overtaking_succ (p : Nat) (xs : List (Nat × α)) :
    overtaking (p + 1) xs = overtaking p xs + (ofPriority p xs).length := by
  unfold overtaking ofPriority
  rw [List.length_map, ← List.countP_eq_length_filter]
  induction xs with
  | nil => rfl
  | cons x xs ih =>
    simp only [List.countP_cons, ih, decide_eq_true_eq]
    split_ifs <;> omega

/-- Arrivals that are more urgent make the line longer. -/
theorem length_upTo_enqueue (c : Queues α) (xs : List (Nat × α)) (p : Nat) :
    (upTo (enqueue c xs) p).length = (upTo c p).length + overtaking p xs := by
  induction p with
  | zero =>
    show 0 = 0 + overtaking 0 xs
    unfold overtaking
    simp
  | succ p ih =>
    rw [upTo_succ, upTo_succ, List.length_append, List.length_append, ih, overtaking_succ]
    show _ + (c p ++ ofPriority p xs).length = _
    rw [List.length_append]
    omega

/-- Serving the first of a queue leaves one less in it. -/
theorem length_upTo_update {c : Queues α} {p p' : Nat} {x : α} {rest : List α}
    (head : c p = x :: rest) (lt : p < p') :
    (upTo (Function.update c p rest) p').length + 1 = (upTo c p').length := by
  induction p' with
  | zero => omega
  | succ p' ih =>
    rw [upTo_succ, upTo_succ, List.length_append, List.length_append]
    by_cases hp : p = p'
    · subst hp
      rw [Function.update_self, head, List.length_cons,
        upTo_congr fun p'' hlt => Function.update_of_ne (Nat.ne_of_lt hlt) _ _]
      omega
    · rw [Function.update_of_ne (fun h => hp h.symm), ← ih (by omega)]
      omega

/-! ## Waiting -/

/-- In one step a waiting thing keeps the count, or it is at place 0 and is served. -/
theorem Step.waits {c c' : Queues α} {l : Label α} (step : Step c l c') {p : Nat}
    {front behind : List α} {x : α} (place : c p = front ++ x :: behind) :
    (∃ front', front' <:+ front ∧ c' p = front' ++ x :: (behind ++ ofPriority p l.arrivals) ∧
        l.turns + (upTo c' p).length + front'.length =
          (upTo c p).length + front.length + overtaking p l.arrivals) ∨
      ∃ pre post, l = .serve pre x post ∧
        (upTo c p).length + front.length + overtaking p pre = 0 := by
  cases step with
  | arrive xs =>
    refine .inl ⟨front, List.suffix_rfl, ?_, ?_⟩
    · simp only [enqueue, place, Label.arrivals, List.append_assoc, List.cons_append]
    · rw [length_upTo_enqueue]
      simp only [Label.turns, Label.arrivals]
      omega
  | rest empty =>
    rename_i pre post
    have h := empty p
    simp only [enqueue, place, List.append_eq_nil_iff] at h
    cases h.1.2
  | serve first =>
    rename_i pre post p₁ y rest
    have hplace : enqueue c pre p = front ++ x :: (behind ++ ofPriority p pre) := by
      simp only [enqueue, place, List.append_assoc, List.cons_append]
    have hcount := length_upTo_enqueue c pre p
    have hafter : ∀ c₁ : Queues α,
        (upTo (enqueue c₁ post) p).length = (upTo c₁ p).length + overtaking p post :=
      fun c₁ => length_upTo_enqueue c₁ post p
    rcases Nat.lt_trichotomy p₁ p with hlt | rfl | hgt
    · -- something more urgent is served
      have hone := length_upTo_update first.head hlt
      refine .inl ⟨front, List.suffix_rfl, ?_, ?_⟩
      · rw [enqueue_apply, Function.update_of_ne (Nat.ne_of_gt hlt), hplace]
        simp [Label.arrivals]
      · rw [hafter]
        simp only [Label.turns, Label.arrivals, overtaking_append]
        omega
    · have hnone := upTo_eq_nil.mpr first.above
      rw [hnone, List.length_nil] at hcount
      have hhead := first.head.symm.trans hplace
      cases front with
      | nil =>
        obtain ⟨rfl, _⟩ := List.cons.inj hhead
        exact .inr ⟨pre, post, rfl, by simp only [List.length_nil]; omega⟩
      | cons z front =>
        -- one of those in front of it is served
        rw [List.cons_append] at hhead
        obtain ⟨rfl, rfl⟩ := List.cons.inj hhead
        refine .inl ⟨front, List.suffix_cons _ _, ?_, ?_⟩
        · rw [enqueue_apply, Function.update_self]
          simp [Label.arrivals]
        · rw [hafter, upTo_congr fun p' hp => Function.update_of_ne (Nat.ne_of_lt hp) _ _, hnone]
          simp only [Label.turns, Label.arrivals, overtaking_append, List.length_nil,
            List.length_cons]
          omega
    · have h := first.above p hgt
      rw [hplace] at h
      simp at h

/-- Along a run a waiting thing keeps the count, or there is a step that serves it: the one in front
of which there have been as many turns as it had places to go, the more urgent arrivals included. -/
theorem trace_waits {c c' : Queues α} {ls : List (Label α)} (run : Run.Trace Step c ls c') {p : Nat}
    {front behind : List α} {x : α} (place : c p = front ++ x :: behind) :
    (∃ front', front' <:+ front ∧ c' p = front' ++ x :: (behind ++ ofPriority p (arrivals ls)) ∧
        turns ls + (upTo c' p).length + front'.length =
          (upTo c p).length + front.length + overtaking p (arrivals ls)) ∨
      ∃ before pre post after, ls = before ++ .serve pre x post :: after ∧
        turns before =
          (upTo c p).length + front.length + overtaking p (arrivals before ++ pre) := by
  induction run generalizing front behind with
  | nil =>
    refine .inl ⟨front, List.suffix_rfl, ?_, ?_⟩
    · simp [arrivals, ofPriority, place]
    · simp [turns, arrivals, overtaking]
  | cons step _ ih =>
    rename_i l ls _
    rcases step.waits place with ⟨front₁, hsuf, hplace, hcount⟩ | ⟨pre, post, rfl, hzero⟩
    · have hturns : ∀ ls, turns (l :: ls) = l.turns + turns ls := fun _ => rfl
      have harr : ∀ ls, arrivals (l :: ls) = l.arrivals ++ arrivals ls := fun ls => by
        simp [arrivals]
      rcases ih hplace with ⟨front₂, hsuf₂, hplace₂, hcount₂⟩ |
        ⟨before, pre, post, after, rfl, hserve⟩
      · refine .inl ⟨front₂, hsuf₂.trans hsuf, ?_, ?_⟩
        · rw [hplace₂, harr, ofPriority_append, List.append_assoc]
        · rw [hturns, harr, overtaking_append]
          omega
      · refine .inr ⟨l :: before, pre, post, after, rfl, ?_⟩
        rw [hturns, hserve, harr, List.append_assoc, overtaking_append p l.arrivals]
        omega
    · refine .inr ⟨[], pre, post, ls, rfl, ?_⟩
      show 0 = _
      rw [show arrivals ([] : List (Label α)) = [] from rfl, List.nil_append]
      exact hzero.symm

/-! ## Emptying -/

/-- There is one that is served next at most. -/
theorem First.unique {c : Queues α} {p p' : Nat} {x x' : α} {rest rest' : List α}
    (h : First c p x rest) (h' : First c p' x' rest') : p = p' ∧ x = x' ∧ rest = rest' := by
  have notBelow : ∀ {p p' : Nat} {x x' : α} {rest rest' : List α}, First c p x rest →
      First c p' x' rest' → ¬ p < p' := by
    intro p p' x x' rest rest' h h' hlt
    have := h'.above p hlt
    rw [h.head] at this
    cases this
  obtain rfl : p = p' := Nat.le_antisymm (Nat.not_lt.mp (notBelow h' h)) (Nat.not_lt.mp (notBelow h h'))
  obtain ⟨rfl, rfl⟩ := List.cons.inj (h.head.symm.trans h'.head)
  exact ⟨rfl, rfl, rfl⟩

/-- If anything waits in the queues before one, there is a first, and it comes first in the order of
service. -/
theorem first_of_upTo {c : Queues α} {p : Nat} {x : α} {xs : List α} (h : upTo c p = x :: xs) :
    ∃ p₁ < p, ∃ rest, First c p₁ x rest ∧ upTo (Function.update c p₁ rest) p = xs := by
  induction p generalizing xs with
  | zero => cases h
  | succ p ih =>
    rw [upTo_succ] at h
    cases hp : upTo c p with
    | nil =>
      rw [hp, List.nil_append] at h
      refine ⟨p, Nat.lt_succ_self p, xs, ⟨h, upTo_eq_nil.mp hp⟩, ?_⟩
      rw [upTo_succ, Function.update_self,
        upTo_congr fun p' hlt => Function.update_of_ne (Nat.ne_of_lt hlt) _ _, hp, List.nil_append]
    | cons y ys =>
      rw [hp, List.cons_append] at h
      obtain ⟨rfl, rfl⟩ := List.cons.inj h
      obtain ⟨p₁, hlt, rest, first, hrest⟩ := ih hp
      refine ⟨p₁, by omega, rest, first, ?_⟩
      rw [upTo_succ, hrest, Function.update_of_ne (by omega)]

end Rtbus.Priority
