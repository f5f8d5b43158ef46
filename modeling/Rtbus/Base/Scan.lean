import Mathlib.Data.List.Basic

/-!
# Loops over an array

A loop `for (i = 0; i < n; i++)` that may stop early is `first`; over the whole of a list it is a
search in the list, and a loop with an accumulator is a fold. `count8` counts in eight bits.
-/

namespace Rtbus.Scan

variable {α β σ : Type _}

/-- The first result of the body. -/
def first (n : Nat) (body : Nat → Option β) : Option β := (List.range n).findSome? body

/-- How many elements pass, in eight bits. -/
def count8 (p : α → Bool) (l : List α) : UInt8 := l.foldl (fun n x => if p x then n + 1 else n) 0

theorem first_eq_some {n k : Nat} {body : Nat → Option β} {b : β} (hk : k < n)
    (hb : body k = some b) (hnone : ∀ i < k, body i = none) : first n body = some b := by
  obtain ⟨m, rfl⟩ := Nat.exists_eq_add_of_lt hk
  rw [first, Nat.add_assoc, List.range_add, List.findSome?_append, List.findSome?_eq_none_iff.mpr
    fun i hi => hnone i (List.mem_range.mp hi), Option.none_or, Nat.add_comm m 1, Nat.add_comm 1 m]
  rw [List.range_succ_eq_map, List.map_cons, List.findSome?_cons, Nat.add_zero, hb]

theorem first_eq_none_iff {n : Nat} {body : Nat → Option β} :
    first n body = none ↔ ∀ i < n, body i = none := by
  rw [first, List.findSome?_eq_none_iff]
  exact forall_congr' fun i => by rw [List.mem_range]

/-- A search by index is a search in the list. -/
theorem first_getElem? (l : List α) (f : α → Option β) :
    first l.length (fun i => l[i]?.bind f) = l.findSome? f := by
  unfold first
  induction l with
  | nil => rfl
  | cons a l ih =>
    rw [List.length_cons, List.range_succ_eq_map, List.findSome?_cons, List.findSome?_map,
      List.findSome?_cons]
    have hhead : (a :: l)[0]?.bind f = f a := rfl
    rw [hhead]
    cases f a with
    | none => exact ih
    | some b => rfl

/-- A fold by index is a fold over the list. -/
theorem foldl_range_getElem? (l : List α) (f : σ → α → σ) (s : σ) :
    (List.range l.length).foldl (fun s i => l[i]?.elim s (f s)) s = l.foldl f s := by
  induction l generalizing s with
  | nil => rfl
  | cons a l ih =>
    rw [List.length_cons, List.range_succ_eq_map, List.foldl_cons, List.foldl_map, List.foldl_cons]
    exact ih (f s a)

theorem toNat_count8 (p : α → Bool) (l : List α) : (count8 p l).toNat = l.countP p % 256 := by
  have hfrom : ∀ (n : UInt8), (l.foldl (fun n x => if p x then n + 1 else n) n).toNat =
      (n.toNat + l.countP p) % 256 := by
    induction l with
    | nil => exact fun n => (Nat.mod_eq_of_lt n.toNat_lt).symm
    | cons a l ih =>
      intro n
      rw [List.foldl_cons, ih, List.countP_cons]
      split
      · rw [UInt8.toNat_add, show (1 : UInt8).toNat = 1 from rfl]
        omega
      · rfl
  rw [count8, hfrom]
  exact congrArg (· % 256) (Nat.zero_add _)

end Rtbus.Scan
