import Mathlib.Data.List.Basic

/-!
# Bounded queues that drop their oldest element

A queue is used through `put`, `get` and `clear`. `Queue` is an implementation of the three over
states of its own, `Queue.run` a sequence of operations with the answers of its gets, and
`Queue.read` a reader that gets one element after the other while others use the queue in between.

`dropOldest` is the reference: a list of bounded length whose put gives up the oldest element for
want of room. An implementation whose operations keep a relation to the reference, and answer as it
does, behaves like it in every run and to every reader (`Simulates.run`, `Simulates.read`).
-/

namespace Rtbus.DropOldest

variable {α σ τ : Type}

/-- An implementation of a queue of `α` over the states `σ`. -/
structure Queue (α σ : Type) where
  put : σ → α → σ
  get : σ → Option α × σ
  clear : σ → σ

inductive Op (α : Type)
  | put (x : α)
  | get
  | clear

namespace Queue

variable (queue : Queue α σ)

/-- One operation: what it answers, if it is a get, and the state behind it. -/
def step (s : σ) : Op α → List (Option α) × σ
  | .put x => ([], queue.put s x)
  | .get => ([(queue.get s).1], (queue.get s).2)
  | .clear => ([], queue.clear s)

/-- A sequence of operations: the answers of its gets in order, and the state behind it. -/
def run (s : σ) : List (Op α) → List (Option α) × σ
  | [] => ([], s)
  | op :: ops =>
    let rest := run (queue.step s op).2 ops
    ((queue.step s op).1 ++ rest.1, rest.2)

/-- A reader that wants `size` elements and stops at the first get that finds none. Before the get
at which `k` elements are still wanted, others perform the operations `others k`. -/
def read (others : Nat → List (Op α)) : Nat → σ → List α × σ
  | 0, s => ([], s)
  | size + 1, s =>
    let got := queue.get (queue.run s (others (size + 1))).2
    match got.1 with
    | none => ([], got.2)
    | some x =>
      let rest := read others size got.2
      (x :: rest.1, rest.2)

end Queue

/-- The reference queue of a given capacity, oldest element first. -/
def dropOldest (capacity : Nat) : Queue α (List α) where
  put q x := if q.length = capacity then (q ++ [x]).tail else q ++ [x]
  get q := (q.head?, q.tail)
  clear _ := []

/-! ## Simulation -/

/-- Every operation keeps the relation, and related gets answer the same. -/
structure Simulates (p : Queue α σ) (q : Queue α τ) (R : σ → τ → Prop) : Prop where
  put : ∀ s t x, R s t → R (p.put s x) (q.put t x)
  get : ∀ s t, R s t → (p.get s).1 = (q.get t).1 ∧ R (p.get s).2 (q.get t).2
  clear : ∀ s t, R s t → R (p.clear s) (q.clear t)

namespace Simulates

variable {p : Queue α σ} {q : Queue α τ} {R : σ → τ → Prop} {s : σ} {t : τ}

theorem step (h : Simulates p q R) (related : R s t) (op : Op α) :
    (p.step s op).1 = (q.step t op).1 ∧ R (p.step s op).2 (q.step t op).2 := by
  cases op with
  | put x => exact ⟨rfl, h.put s t x related⟩
  | get => exact ⟨congrArg (fun x => [x]) (h.get s t related).1, (h.get s t related).2⟩
  | clear => exact ⟨rfl, h.clear s t related⟩

/-- Related states give the same answers in every run, and stay related. -/
theorem run (h : Simulates p q R) (related : R s t) (ops : List (Op α)) :
    (p.run s ops).1 = (q.run t ops).1 ∧ R (p.run s ops).2 (q.run t ops).2 := by
  induction ops generalizing s t with
  | nil => exact ⟨rfl, related⟩
  | cons op ops ih =>
    obtain ⟨hanswer, hrelated⟩ := h.step related op
    obtain ⟨hrest, hend⟩ := ih hrelated
    refine ⟨?_, hend⟩
    simp only [Queue.run]
    rw [hanswer, hrest]

/-- A reader of related states gets the same elements, whatever others do in between. -/
theorem read (h : Simulates p q R) (others : Nat → List (Op α)) (size : Nat) (related : R s t) :
    (p.read others size s).1 = (q.read others size t).1 ∧
      R (p.read others size s).2 (q.read others size t).2 := by
  induction size generalizing s t with
  | zero => exact ⟨rfl, related⟩
  | succ size ih =>
    obtain ⟨hanswer, hrelated⟩ := h.get _ _ (h.run related (others (size + 1))).2
    simp only [Queue.read]
    rw [hanswer]
    split
    · exact ⟨rfl, hrelated⟩
    · obtain ⟨hrest, hend⟩ := ih hrelated
      exact ⟨congrArg _ hrest, hend⟩

end Simulates

/-! ## The reference -/

variable {capacity : Nat}

theorem length_step_le (q : List α) (h : q.length ≤ capacity) (op : Op α) :
    ((dropOldest capacity).step q op).2.length ≤ capacity := by
  cases op with
  | put x =>
    show (if q.length = capacity then (q ++ [x]).tail else q ++ [x]).length ≤ capacity
    split
    · rw [List.length_tail, List.length_append, List.length_singleton]
      omega
    · rw [List.length_append, List.length_singleton]
      omega
  | get =>
    show q.tail.length ≤ capacity
    rw [List.length_tail]
    omega
  | clear => exact Nat.zero_le _

/-- The reference never holds more than its capacity. -/
theorem length_run_le (q : List α) (h : q.length ≤ capacity) (ops : List (Op α)) :
    ((dropOldest capacity).run q ops).2.length ≤ capacity := by
  induction ops generalizing q with
  | nil => exact h
  | cons op ops ih => exact ih _ (length_step_le q h op)

/-- A reader that is alone takes the longest prefix there is, up to what it wants. -/
theorem read_alone (size : Nat) (q : List α) :
    (dropOldest capacity).read (fun _ => []) size q = (q.take size, q.drop size) := by
  induction size generalizing q with
  | zero => rfl
  | succ size ih =>
    cases q with
    | nil => rfl
    | cons x q =>
      have hrest := ih q
      show (x :: ((dropOldest capacity).read (fun _ => []) size q).1,
        ((dropOldest capacity).read (fun _ => []) size q).2) = _
      rw [hrest, List.take_succ_cons, List.drop_succ_cons]

/-- A reader that gets less than it wants leaves the queue empty. -/
theorem read_short (others : Nat → List (Op α)) (size : Nat) (q : List α)
    (short : ((dropOldest capacity).read others size q).1.length < size) :
    ((dropOldest capacity).read others size q).2 = [] := by
  induction size generalizing q with
  | zero => exact absurd short (Nat.not_lt_zero _)
  | succ size ih =>
    simp only [Queue.read] at short ⊢
    split
    · rename_i hnone
      have hempty := List.head?_eq_none_iff.mp hnone
      show List.tail _ = []
      rw [hempty]
      rfl
    · rename_i x hsome
      rw [hsome] at short
      exact ih _ (Nat.lt_of_succ_lt_succ short)

end Rtbus.DropOldest
