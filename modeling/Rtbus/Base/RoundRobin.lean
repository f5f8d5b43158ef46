import Mathlib.Data.List.Rotate

/-!
# Taking turns

A cursor goes round a table. In a turn it looks for the first element from where it stands, round the
end, that wants a turn, and stops behind it. `rank` of the cursor is how many such elements are
before it; a turn adds one to it modulo their number (`turn`), so the turns go round the list of the
elements that want one: of as many turns in a row as there are such elements, each has one
(`InTurn.window`).
-/

namespace Rtbus.RoundRobin

variable {α : Type _} (p : α → Bool) (l : List α)

/-- How many elements before the cursor want a turn. -/
def rank (cursor : Nat) : Nat := (l.take cursor).countP p

/-- The first element from the cursor on, round the end, that wants a turn. -/
structure IsNext (cursor index : Nat) (a : α) : Prop where
  found : l[index]? = some a
  wants : p a = true
  first : ∃ i < l.length, index = (cursor + i) % l.length ∧
    ∀ j < i, ∀ b, l[(cursor + j) % l.length]? = some b → p b = false

/-- The turns go round the list, from its element `k` on. -/
def InTurn (l : List α) (k : Nat) (turns : List α) : Prop :=
  ∀ i a, turns[i]? = some a → l[(k + i) % l.length]? = some a

variable {p l} {a : α}

theorem rank_succ {c : Nat} (h : l[c]? = some a) :
    rank p l (c + 1) = rank p l c + if p a then 1 else 0 := by
  unfold rank
  rw [List.take_add_one, h, Option.toList_some, List.countP_append, List.countP_singleton]

theorem rank_length : rank p l l.length = (l.filter p).length := by
  rw [rank, List.take_length, List.countP_eq_length_filter]

/-- Nothing in between wants a turn. -/
theorem rank_gap {c d : Nat} (hcd : c ≤ d) (hd : d ≤ l.length)
    (h : ∀ j, c ≤ j → j < d → ∀ b, l[j]? = some b → p b = false) : rank p l d = rank p l c := by
  induction d with
  | zero => rw [Nat.le_zero.mp hcd]
  | succ d ih =>
    rcases Nat.lt_or_ge d c with hlt | hge
    · rw [Nat.le_antisymm hcd hlt]
    · have hget : l[d]? = some (l[d]) := List.getElem?_eq_getElem (by omega)
      rw [rank_succ hget, h d hge (by omega) _ hget,
        ih hge (by omega) fun j hj hjd => h j hj (by omega)]
      rfl

/-- The element at a place of the table has its rank among those that want a turn. -/
theorem filter_rank {c : Nat} (h : l[c]? = some a) (ha : p a = true) :
    (l.filter p)[rank p l c]? = some a := by
  obtain ⟨hc, hget⟩ := List.getElem?_eq_some_iff.mp h
  have hcut : l = l.take c ++ a :: l.drop (c + 1) := by
    rw [← hget, List.getElem_cons_drop, List.take_append_drop]
  have hlen : ((l.take c).filter p).length = rank p l c := (List.countP_eq_length_filter).symm
  have hfilter : l.filter p = (l.take c).filter p ++ a :: (l.drop (c + 1)).filter p := by
    conv_lhs => rw [hcut, List.filter_append, List.filter_cons_of_pos ha]
  rw [hfilter, ← hlen, List.getElem?_append_right (Nat.le_refl _), Nat.sub_self]
  rfl

/-- One turn. -/
theorem turn {cursor index : Nat} (hcursor : cursor < l.length) (h : IsNext p l cursor index a) :
    (l.filter p)[rank p l cursor % (l.filter p).length]? = some a ∧
    rank p l ((index + 1) % l.length) % (l.filter p).length =
      (rank p l cursor + 1) % (l.filter p).length := by
  obtain ⟨i, hi, hindex, hskip⟩ := h.first
  obtain ⟨hlt, _⟩ := List.getElem?_eq_some_iff.mp h.found
  have hmem := filter_rank h.found h.wants
  obtain ⟨hrank, _⟩ := List.getElem?_eq_some_iff.mp hmem
  have hnext := rank_succ (p := p) h.found
  rw [h.wants, if_pos rfl] at hnext
  rcases Nat.lt_or_ge (cursor + i) l.length with hnowrap | hwrap
  · -- the element is at the cursor or behind it
    rw [Nat.mod_eq_of_lt hnowrap] at hindex
    have hsame : rank p l index = rank p l cursor :=
      rank_gap (by omega) (by omega) fun j hj hji b hb =>
        hskip (j - cursor) (by omega) b (by
          rwa [show cursor + (j - cursor) = j by omega, Nat.mod_eq_of_lt (by omega)])
    rw [hsame] at hmem hnext hrank
    refine ⟨by rwa [Nat.mod_eq_of_lt hrank], ?_⟩
    rcases Nat.lt_or_ge (index + 1) l.length with hin | hend
    · rw [Nat.mod_eq_of_lt hin, hnext]
    · have hlast : index + 1 = l.length := by omega
      rw [hlast, rank_length] at hnext
      rw [hlast, Nat.mod_self, ← hnext, Nat.mod_self]
      exact Nat.zero_mod _
  · -- the search goes round the end
    have hindex' : index = cursor + i - l.length := by
      rw [hindex, Nat.mod_eq_sub_mod hwrap, Nat.mod_eq_of_lt (by omega)]
    have hend : (l.filter p).length = rank p l cursor := by
      rw [← rank_length]
      exact rank_gap hcursor.le (Nat.le_refl _) fun j hj hjn b hb =>
        hskip (j - cursor) (by omega) b (by
          rwa [show cursor + (j - cursor) = j by omega, Nat.mod_eq_of_lt (by omega)])
    have hstart : rank p l index = rank p l 0 :=
      rank_gap (Nat.zero_le _) (by omega) fun j _ hji b hb =>
        hskip (l.length - cursor + j) (by omega) b (by
          rwa [show cursor + (l.length - cursor + j) = j + l.length by omega, Nat.add_mod_right,
            Nat.mod_eq_of_lt (by omega)])
    have hzero : rank p l 0 = 0 := rfl
    rw [hstart, hzero] at hmem hnext
    rw [← hend, Nat.mod_self, Nat.mod_eq_of_lt (show index + 1 < l.length by omega), hnext,
      Nat.add_mod_left]
    exact ⟨hmem, rfl⟩

theorem InTurn.nil (l : List α) (k : Nat) : InTurn l k [] := fun i a h => by cases h

theorem InTurn.cons {k : Nat} {turns : List α} (h : l[k % l.length]? = some a)
    (hrest : InTurn l (k + 1) turns) : InTurn l k (a :: turns) := by
  intro i b hb
  cases i with
  | zero =>
    cases hb
    exact h
  | succ i =>
    rw [show k + (i + 1) = k + 1 + i by omega]
    exact hrest i b hb

/-- Where the turns begin counts only modulo the length. -/
theorem InTurn.congr {k k' : Nat} {turns : List α} (h : InTurn l k turns)
    (hk : k % l.length = k' % l.length) : InTurn l k' turns := by
  intro i a ha
  rw [Nat.add_mod, ← hk, ← Nat.add_mod]
  exact h i a ha

theorem InTurn.mem {k : Nat} {turns : List α} (h : InTurn l k turns) (ha : a ∈ turns) : a ∈ l := by
  obtain ⟨i, hi⟩ := List.mem_iff_getElem?.mp ha
  exact List.mem_of_getElem? (h i a hi)

/-- As many turns in a row as there are elements are the elements, each once and in their order. -/
theorem InTurn.window {k i : Nat} {turns : List α} (h : InTurn l k turns)
    (hi : i + l.length ≤ turns.length) : (turns.drop i).take l.length = l.rotate (k + i) := by
  refine List.ext_getElem? fun j => ?_
  rcases Nat.lt_or_ge j l.length with hj | hj
  · have hget : turns[i + j]? = some (turns[i + j]) := List.getElem?_eq_getElem (by omega)
    rw [List.getElem?_take_of_lt hj, List.getElem?_drop, List.getElem?_rotate hj, hget,
      ← h _ _ hget]
    congr 2
    omega
  · rw [List.getElem?_eq_none, List.getElem?_eq_none]
    · rw [List.length_rotate]
      exact hj
    · exact (List.length_take_le _ _).trans hj

end Rtbus.RoundRobin
