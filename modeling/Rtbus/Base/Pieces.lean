/-!
# Reading in pieces

A reader that can take at most `size` elements at once asks for a value piece by piece, each from
where the last one ended, until a piece is shorter than what it can take. With a source that hands
out what is left of the value, as far as it fits, it ends up with the value (`Serves.readFrom`); a
value that fills its last piece takes one more question, which is answered with nothing.
-/

namespace Rtbus.Pieces

variable {α : Type _}

/-- What is read from `offset` on. -/
def readFrom (read : Nat → Option (List α)) (size : Nat) : Nat → Nat → Option (List α)
  | 0, _ => none
  | fuel + 1, offset =>
    match read offset with
    | none => none
    | some piece =>
      if piece.length < size then some piece
      else (readFrom read size fuel (offset + piece.length)).map (piece ++ ·)

/-- The source hands out what is left of a value, as far as it fits. -/
def Serves (read : Nat → Option (List α)) (size : Nat) (value : List α) : Prop :=
  ∀ offset ≤ value.length, read offset = some ((value.drop offset).take size)

theorem Serves.readFrom {read : Nat → Option (List α)} {size : Nat} {value : List α}
    (h : Serves read size value) (pos : 0 < size) {fuel offset : Nat}
    (inside : offset ≤ value.length) (enough : value.length < offset + fuel) :
    readFrom read size fuel offset = some (value.drop offset) := by
  induction fuel generalizing offset with
  | zero => omega
  | succ fuel ih =>
    unfold Pieces.readFrom
    rw [h offset inside]
    dsimp only
    rw [List.length_take, List.length_drop]
    by_cases hlast : value.length - offset < size
    · rw [if_pos (by omega), List.take_of_length_le (by rw [List.length_drop]; omega)]
    · rw [if_neg (by omega), Nat.min_eq_left (by omega), ih (by omega) (by omega)]
      show some (_ ++ _) = _
      rw [← List.drop_drop, List.take_append_drop]

end Rtbus.Pieces
