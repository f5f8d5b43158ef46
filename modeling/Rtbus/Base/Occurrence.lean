import Mathlib.Data.List.DropRight

/-!
# Texts in the last elements of a stream

A reader keeps the last `n` elements of what it has read and looks for a text among them whenever
one more has come. It sees the first occurrence of a text of at most `n` elements as soon as the last
element of it is there. A reader that looks no further than to the first element without a property
`p` sees it if all elements it keeps have that property, and not otherwise (`infix_kept_iff`).
-/

namespace Rtbus.Occurrence

variable {α : Type*} {t xs : List α} {b : α} {n : Nat}

/-- A text that one more element brings about ends with that element. -/
theorem infix_concat_iff_of_new (new : ¬ t <:+: xs) : t <:+: xs ++ [b] ↔ t <:+ xs ++ [b] := by
  rw [List.infix_concat_iff]
  exact or_iff_left new

/-- The last elements end with the texts that all elements end with, unless they are too long. -/
theorem suffix_rtake_iff (fits : t.length ≤ n) : t <:+ xs.rtake n ↔ t <:+ xs := by
  have hsub : xs.rtake n <:+ xs := List.drop_suffix ..
  refine ⟨fun h => h.trans hsub, fun h => ?_⟩
  refine List.suffix_of_suffix_length_le h hsub ?_
  have hle := h.length_le
  rw [List.rtake, List.length_drop]
  omega

theorem length_rtake_le : (xs.rtake n).length ≤ n := by
  rw [List.rtake, List.length_drop]
  omega

/-- What is kept of one element more. -/
theorem rtake_concat (hn : 0 < n) : (xs ++ [b]).rtake n = xs.rtake (n - 1) ++ [b] := by
  obtain ⟨k, rfl⟩ : ∃ k, n = k + 1 := ⟨n - 1, by omega⟩
  exact List.rtake_concat_succ ..

/-- A text that one more element brings about, looked for in what is kept up to the first element
without `p`. -/
theorem infix_kept_iff {p : α → Bool} (new : ¬ t <:+: xs) (hn : 0 < n) (fits : t.length ≤ n) :
    t <:+: ((xs ++ [b]).rtake n).takeWhile p ↔
      t <:+ xs ++ [b] ∧ ∀ x ∈ (xs ++ [b]).rtake n, p x = true := by
  have hsub : (xs ++ [b]).rtake n <:+ xs ++ [b] := List.drop_suffix ..
  by_cases all : ∀ x ∈ (xs ++ [b]).rtake n, p x = true
  · rw [List.takeWhile_eq_self_iff.mpr all, and_iff_left all]
    constructor
    · intro h
      exact (infix_concat_iff_of_new new).mp (h.trans hsub.isInfix)
    · intro h
      exact ((suffix_rtake_iff fits).mpr h).isInfix
  · refine iff_of_false (fun h => new ?_) fun h => all h.2
    -- what is looked at ends before the new element
    have hpre : ((xs ++ [b]).rtake n).takeWhile p <+: xs.rtake (n - 1) := by
      have h : ((xs ++ [b]).rtake n).takeWhile p <+: xs.rtake (n - 1) ++ [b] := by
        rw [rtake_concat hn]
        exact List.takeWhile_prefix p
      rcases List.prefix_concat_iff.mp h with heq | hpre
      · rw [rtake_concat hn] at all heq
        exact absurd (List.takeWhile_eq_self_iff.mp heq) all
      · exact hpre
    exact h.trans (hpre.isInfix.trans (List.drop_suffix ..).isInfix)

/-- What comes true of the beginning of a list comes true with one of its elements. -/
theorem exists_first {P : List α → Prop} (base : ¬ P []) (h : P xs) :
    ∃ ys b zs, xs = ys ++ b :: zs ∧ ¬ P ys ∧ P (ys ++ [b]) := by
  induction xs using List.reverseRecOn with
  | nil => exact absurd h base
  | append_singleton xs b ih =>
    by_cases hxs : P xs
    · obtain ⟨ys, c, zs, rfl, hys, hc⟩ := ih hxs
      exact ⟨ys, c, zs ++ [b], by simp, hys, hc⟩
    · exact ⟨xs, b, [], rfl, hxs, h⟩

end Rtbus.Occurrence
