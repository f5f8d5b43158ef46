import Mathlib.Data.Nat.ModEq
import Mathlib.Logic.Function.Basic

/-!
# Windows of a circular buffer

A circular buffer of `n` cells is read through a start position and a count: the window of
`count` cells from `start`, each index taken modulo `n`. The positions are not reduced, so that
moving the start by one is plain addition; `window_mod` says that reducing them changes nothing.

Three edits cover a bounded queue: a write at the end of the window (`window_push`), a read at its
start (`window_succ`), and a write outside it (`window_update_outside`).
-/

namespace Rtbus.Circular

variable {α : Type}

/-- The `count` cells from `start` on, in order, of a circular buffer of `n` cells. -/
def window (cells : Nat → α) (n start : Nat) : Nat → List α
  | 0 => []
  | count + 1 => cells (start % n) :: window cells n (start + 1) count

@[simp] theorem window_zero (cells : Nat → α) (n start : Nat) : window cells n start 0 = [] := rfl

/-- Reading at the start takes the first cell and moves the start by one. -/
theorem window_succ (cells : Nat → α) (n start count : Nat) :
    window cells n start (count + 1) = cells (start % n) :: window cells n (start + 1) count := rfl

@[simp] theorem window_length (cells : Nat → α) (n start count : Nat) :
    (window cells n start count).length = count := by
  induction count generalizing start with
  | zero => rfl
  | succ count ih => simp only [window_succ, List.length_cons, ih]

/-- The start of a window may be reduced. -/
theorem window_mod (cells : Nat → α) (n start count : Nat) :
    window cells n (start % n) count = window cells n start count := by
  induction count generalizing start with
  | zero => rfl
  | succ count ih =>
    rw [window_succ, window_succ, Nat.mod_mod, ← ih (start % n + 1), ← ih (start + 1),
      Nat.mod_add_mod]

/-- One more cell at the end of a window. -/
theorem window_snoc (cells : Nat → α) (n start count : Nat) :
    window cells n start (count + 1) =
      window cells n start count ++ [cells ((start + count) % n)] := by
  induction count generalizing start with
  | zero => rfl
  | succ count ih =>
    rw [window_succ, ih (start + 1), window_succ cells n start count, List.cons_append,
      Nat.add_right_comm, Nat.add_assoc]

/-- Two positions less than a turn apart name different cells. -/
theorem mod_ne_of_lt {n a b : Nat} (lo : a < b) (hi : b < a + n) : a % n ≠ b % n := by
  intro h
  have hdvd : n ∣ b - a := (Nat.modEq_iff_dvd' (Nat.le_of_lt lo)).mp h
  have hpos : 0 < b - a := by omega
  have := Nat.le_of_dvd hpos hdvd
  omega

/-- A write at a position outside the window leaves the window as it was. -/
theorem window_update_outside (cells : Nat → α) (n start count p : Nat) (x : α)
    (outside : ∀ i, i < count → (start + i) % n ≠ p) :
    window (Function.update cells p x) n start count = window cells n start count := by
  induction count generalizing start with
  | zero => rfl
  | succ count ih =>
    have h0 : start % n ≠ p := by simpa using outside 0 (Nat.succ_pos count)
    rw [window_succ, window_succ, Function.update_of_ne h0, ih]
    intro i hi
    have := outside (i + 1) (by omega)
    rwa [Nat.add_right_comm, Nat.add_assoc]

/-- A write at the end of a window with room left appends the element to it. -/
theorem window_push (cells : Nat → α) (n start count : Nat) (x : α) (room : count < n) :
    window (Function.update cells ((start + count) % n) x) n start (count + 1) =
      window cells n start count ++ [x] := by
  rw [window_snoc, Function.update_self, window_update_outside]
  intro i hi
  exact mod_ne_of_lt (by omega) (by omega)

end Rtbus.Circular
