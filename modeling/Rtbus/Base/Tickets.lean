import Mathlib.Data.List.Perm.Basic
import Mathlib.Data.List.Range

/-!
# Slots with tickets

A table of slots into which items are put and out of which they are taken. The book that is kept of
it numbers the items: it has what each ticket was issued for, the ticket in each slot, and what was
taken, with the ticket found in the slot. `Accounted` says that the tickets in the slots and the ones
taken are exactly the ones issued, each once. Putting into a free slot and taking out of a used one
keep it, whatever order the slots are used in; so nothing is taken twice, and nothing that was put
in has gone in any other way.
-/

namespace Rtbus.Tickets

variable {τ μ : Type}

/-- The book of a table of slots. -/
structure Book (τ μ : Type) where
  issued : List τ
  held : List (Option Nat)
  taken : List (Option Nat × μ)

/-- The book of so many free slots. -/
def Book.blank (slots : Nat) : Book τ μ :=
  { issued := [], held := List.replicate slots none, taken := [] }

/-- The ticket in a slot, if there is one. -/
def Book.ticket (b : Book τ μ) (i : Nat) : Option Nat := b.held[i]?.join

/-- Something is put into a slot. -/
def Book.put (b : Book τ μ) (i : Nat) (t : τ) : Book τ μ :=
  { b with issued := b.issued ++ [t], held := b.held.set i (some b.issued.length) }

/-- Something is taken out of a slot. -/
def Book.take (b : Book τ μ) (i : Nat) (m : μ) : Book τ μ :=
  { b with held := b.held.set i none, taken := b.taken ++ [(b.ticket i, m)] }

/-- Every ticket issued is in one slot or was taken once, and there are no others. -/
def Book.Accounted (b : Book τ μ) : Prop :=
  ((b.held.filterMap id).map some ++ b.taken.map Prod.fst).Perm ((List.range b.issued.length).map some)

/-- A list with one element replaced. -/
theorem set_perm {α : Type} {l : List α} {i : Nat} {a : α} (h : l[i]? = some a) (b : α) :
    (a :: l.set i b).Perm (b :: l) := by
  obtain ⟨hi, ha⟩ := List.getElem?_eq_some_iff.mp h
  have hset := (List.set_perm_cons_eraseIdx hi b).cons a
  have hold := (List.getElem_cons_eraseIdx_perm hi).cons b
  rw [ha] at hold
  exact (hset.trans (.swap ..)).trans hold

theorem Book.ticket_of_held {b : Book τ μ} {i : Nat} {x : Option Nat} (h : b.held[i]? = some x) :
    b.ticket i = x := by
  unfold Book.ticket
  rw [h]
  rfl

theorem accounted_blank (slots : Nat) : (Book.blank slots : Book τ μ).Accounted := by
  unfold Book.Accounted Book.blank
  have hnone : (List.replicate slots (none : Option Nat)).filterMap id = [] :=
    List.filterMap_eq_nil_iff.mpr fun x hx => List.eq_of_mem_replicate hx
  rw [hnone]
  exact .refl _

namespace Book.Accounted

variable {b : Book τ μ}

/-- Putting into a free slot. -/
theorem put (h : b.Accounted) {i : Nat} (free : b.held[i]? = some none) (t : τ) :
    (b.put i t).Accounted := by
  have hheld : ((b.held.set i (some b.issued.length)).filterMap id).Perm
      (b.issued.length :: b.held.filterMap id) := (set_perm free _).filterMap id
  unfold Book.Accounted Book.put
  rw [List.length_append, List.length_singleton, List.range_succ, List.map_append]
  refine ((hheld.map some).append_right _).trans ?_
  exact (h.cons (some b.issued.length)).trans (List.perm_append_singleton _ _).symm

/-- Taking out of a used slot. -/
theorem take (h : b.Accounted) {i k : Nat} (used : b.held[i]? = some (some k)) (m : μ) :
    (b.take i m).Accounted := by
  have hheld : (k :: (b.held.set i none).filterMap id).Perm (b.held.filterMap id) :=
    (set_perm used none).filterMap id
  unfold Book.Accounted Book.take
  rw [ticket_of_held used, List.map_append]
  refine List.Perm.trans ?_ h
  rw [← List.append_assoc]
  exact (List.perm_append_singleton _ _).trans ((hheld.map some).append_right _)

/-- Nothing is taken twice. -/
theorem nodup (h : b.Accounted) : (b.taken.map Prod.fst).Nodup := by
  have hrange : ((List.range b.issued.length).map some).Nodup :=
    List.Pairwise.map some (fun _ _ hne heq => hne (Option.some.inj heq)) List.nodup_range
  exact (List.nodup_append.mp (h.nodup_iff.mpr hrange)).2.1

/-- What was put in is in its slot as long as it was not taken. -/
theorem held_or_taken (h : b.Accounted) {k : Nat} (hk : k < b.issued.length) :
    some k ∈ b.held ∨ ∃ m, (some k, m) ∈ b.taken := by
  have hmem := h.mem_iff.mpr (List.mem_map_of_mem (List.mem_range.mpr hk))
  rcases List.mem_append.mp hmem with hmem | hmem
  · obtain ⟨k', hk', hsome⟩ := List.mem_map.mp hmem
    obtain ⟨x, hx, hid⟩ := List.mem_filterMap.mp hk'
    cases hsome
    exact .inl (hid ▸ hx)
  · obtain ⟨⟨x, m⟩, hx, hfst⟩ := List.mem_map.mp hmem
    cases hfst
    exact .inr ⟨m, hx⟩

end Book.Accounted

end Rtbus.Tickets
