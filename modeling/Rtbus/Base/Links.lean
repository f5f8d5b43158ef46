import Mathlib.Data.List.Perm.Subperm
import Rtbus.Base.Memory

/-!
# Linked lists in memory

The nodes of a singly linked list hold the address of the next node in their first word, and zero
ends the list. `Seg m a as b` says that following the links from `a` visits the nodes `as` and then
arrives at `b`; a whole list is a segment that ends at zero. Segments are split and joined with
`seg_append`, and depend on the link words of their own nodes only (`Seg.congr`).
-/

namespace Rtbus

/-- Following links from `a` visits the nodes `as` and arrives at `b`. -/
def Seg (m : Memory) : Nat → List Nat → Nat → Prop
  | a, [], b => a = b
  | a, x :: xs, b => a = x ∧ x ≠ 0 ∧ Seg m (m.load32 x) xs b

/-- The list at `a` has the nodes `as`. -/
abbrev Linked (m : Memory) (a : Nat) (as : List Nat) : Prop := Seg m a as 0

theorem seg_append {m : Memory} {a b : Nat} {xs ys : List Nat} :
    Seg m a (xs ++ ys) b ↔ ∃ c, Seg m a xs c ∧ Seg m c ys b := by
  induction xs generalizing a with
  | nil => exact ⟨fun h => ⟨a, rfl, h⟩, fun ⟨_, h, h'⟩ => h ▸ h'⟩
  | cons x xs ih =>
    simp only [List.cons_append, Seg, ih]
    constructor
    · rintro ⟨h1, h2, c, h3, h4⟩
      exact ⟨c, ⟨h1, h2, h3⟩, h4⟩
    · rintro ⟨c, ⟨h1, h2, h3⟩, h4⟩
      exact ⟨h1, h2, c, h3, h4⟩

/-- A segment depends on the link words of its nodes only. -/
theorem Seg.congr {m m' : Memory} {a b : Nat} {xs : List Nat} (h : Seg m a xs b)
    (same : ∀ x ∈ xs, m'.load32 x = m.load32 x) : Seg m' a xs b := by
  induction xs generalizing a with
  | nil => exact h
  | cons x xs ih =>
    obtain ⟨h1, h2, h3⟩ := h
    refine ⟨h1, h2, ?_⟩
    rw [same x (List.mem_cons_self ..)]
    exact ih h3 fun y hy => same y (List.mem_cons_of_mem _ hy)

/-- Redirecting the last link of a segment. -/
theorem Seg.redirect {m m' : Memory} {a b c l : Nat} {xs : List Nat}
    (h : Seg m a (xs ++ [l]) b) (same : ∀ x ∈ xs, m'.load32 x = m.load32 x)
    (last : m'.load32 l = c) : Seg m' a (xs ++ [l]) c := by
  obtain ⟨d, h1, h2, h3, _⟩ := seg_append.mp h
  exact seg_append.mpr ⟨d, h1.congr same, h2, h3, last⟩

theorem Seg.ne_zero {m : Memory} {a b : Nat} {xs : List Nat} (h : Seg m a xs b) :
    ∀ x ∈ xs, x ≠ 0 := by
  induction xs generalizing a with
  | nil => simp
  | cons x xs ih =>
    intro y hy
    rcases List.mem_cons.mp hy with rfl | hy
    · exact h.2.1
    · exact ih h.2.2 y hy

/-- A list starts at zero exactly if it has no nodes. -/
theorem Linked.eq_zero_iff {m : Memory} {a : Nat} {xs : List Nat} (h : Linked m a xs) :
    a = 0 ↔ xs = [] := by
  cases xs with
  | nil => exact ⟨fun _ => rfl, fun _ => h⟩
  | cons x xs => exact ⟨fun ha => absurd (h.1 ▸ ha) h.2.1, fun hx => by cases hx⟩

/-- The nodes of a list are determined by where it starts. -/
theorem Linked.unique {m : Memory} {a : Nat} {xs ys : List Nat} (h : Linked m a xs)
    (h' : Linked m a ys) : xs = ys := by
  induction xs generalizing a ys with
  | nil => exact (h'.eq_zero_iff.mp h).symm
  | cons x xs ih =>
    cases ys with
    | nil => exact absurd (h.1 ▸ h') h.2.1
    | cons y ys =>
      obtain ⟨rfl, _, rest⟩ := h
      obtain ⟨rfl, _, rest'⟩ := h'
      rw [ih rest rest']

/-- A list without repetition that stays inside another is no longer than it. -/
theorem length_le_of_nodup_subset {xs ys : List Nat} (nodup : xs.Nodup) (sub : xs ⊆ ys) :
    xs.length ≤ ys.length := (List.Nodup.subperm nodup sub).length_le

end Rtbus
