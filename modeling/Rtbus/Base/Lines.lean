import Mathlib.Data.List.Induction

/-!
# Lines

A stream is cut into lines by the elements that end one: `complete` are the lines that have ended,
`current` is what has come since. A list of lines is put into one stream again by writing a
terminator behind each (`frame`). A reader of such a stream that has read part of a line can tell
from the next element whether it has the whole line (`front_of_frame`).
-/

namespace Rtbus.Lines

variable {α : Type _} (isEnd : α → Bool)

/-- The lines after one more element. -/
def step (s : List (List α) × List α) (x : α) : List (List α) × List α :=
  if isEnd x then (s.1 ++ [s.2], []) else (s.1, s.2 ++ [x])

/-- The lines of a stream and what has come since the last one ended. -/
def split (stream : List α) : List (List α) × List α := stream.foldl (step isEnd) ([], [])

/-- The lines that have ended. -/
def complete (stream : List α) : List (List α) := (split isEnd stream).1

/-- What has come since the last line ended. -/
def current (stream : List α) : List α := (split isEnd stream).2

variable {isEnd} {stream : List α} {x : α}

theorem split_append (stream : List α) (x : α) :
    split isEnd (stream ++ [x]) = step isEnd (split isEnd stream) x := by
  unfold split
  rw [List.foldl_append]
  rfl

theorem complete_of_end (h : isEnd x = true) :
    complete isEnd (stream ++ [x]) = complete isEnd stream ++ [current isEnd stream] := by
  unfold complete current
  rw [split_append, step, if_pos h]

theorem current_of_end (h : isEnd x = true) : current isEnd (stream ++ [x]) = [] := by
  unfold current
  rw [split_append, step, if_pos h]

theorem complete_of_other (h : isEnd x = false) :
    complete isEnd (stream ++ [x]) = complete isEnd stream := by
  unfold complete
  rw [split_append, step, h, if_neg Bool.false_ne_true]

theorem current_of_other (h : isEnd x = false) :
    current isEnd (stream ++ [x]) = current isEnd stream ++ [x] := by
  unfold current
  rw [split_append, step, h, if_neg Bool.false_ne_true]

/-- Lines that have ended stay. -/
theorem complete_append (stream more : List α) :
    complete isEnd stream <+: complete isEnd (stream ++ more) := by
  induction more using List.reverseRecOn with
  | nil => exact ⟨[], by rw [List.append_nil, List.append_nil]⟩
  | append_singleton more x ih =>
    rw [← List.append_assoc]
    cases hx : isEnd x with
    | true =>
      rw [complete_of_end hx]
      exact ih.trans (List.prefix_append _ _)
    | false =>
      rw [complete_of_other hx]
      exact ih

/-- No line has an element that ends one. -/
theorem no_end (stream : List α) :
    (∀ line ∈ complete isEnd stream, ∀ x ∈ line, isEnd x = false) ∧
      ∀ x ∈ current isEnd stream, isEnd x = false := by
  induction stream using List.reverseRecOn with
  | nil => exact ⟨nofun, nofun⟩
  | append_singleton stream x ih =>
    obtain ⟨hlines, hcurrent⟩ := ih
    cases hx : isEnd x with
    | true =>
      rw [complete_of_end hx, current_of_end hx]
      refine ⟨fun line hline => ?_, nofun⟩
      rcases List.mem_append.mp hline with hline | hline
      · exact hlines line hline
      · rw [List.mem_singleton.mp hline]
        exact hcurrent
    | false =>
      rw [complete_of_other hx, current_of_other hx]
      refine ⟨hlines, fun y hy => ?_⟩
      rcases List.mem_append.mp hy with hy | hy
      · exact hcurrent y hy
      · rw [List.mem_singleton.mp hy]
        exact hx

/-- The stream of some lines with a terminator behind each. -/
def frame (terminator : α) (lines : List (List α)) : List α := lines.flatMap (· ++ [terminator])

variable {terminator : α} {line line' tail tail' : List α} {lines : List (List α)}

theorem frame_append (lines : List (List α)) (line : List α) :
    frame terminator (lines ++ [line]) = frame terminator lines ++ (line ++ [terminator]) := by
  unfold frame
  rw [List.flatMap_append, List.flatMap_singleton]

theorem frame_cons (line : List α) (lines : List (List α)) :
    frame terminator (line :: lines) = line ++ terminator :: frame terminator lines := by
  unfold frame
  rw [List.flatMap_cons, List.append_assoc]
  rfl

/-- A stream that starts with a line and a terminator, and has been read up to part of a line: the
next element is the terminator and the line has been read, or it is one of the line. -/
theorem front_of_line (reader : terminator ∉ line)
    (h : line ++ x :: tail = line' ++ terminator :: tail') :
    (x = terminator ∧ line = line' ∧ tail = tail') ∨
      (x ∈ line' ∧ line.length < line'.length) := by
  rcases List.append_eq_append_iff.mp h with ⟨more, rfl, hmore⟩ | ⟨more, rfl, hmore⟩
  · cases more with
    | nil =>
      cases hmore
      exact .inl ⟨rfl, (List.append_nil _).symm, rfl⟩
    | cons y more =>
      obtain ⟨rfl, rfl⟩ := List.cons_eq_cons.mp hmore
      refine .inr ⟨List.mem_append_right _ List.mem_cons_self, ?_⟩
      rw [List.length_append, List.length_cons]
      exact Nat.lt_add_of_pos_right (Nat.succ_pos _)
  · cases more with
    | nil =>
      cases hmore
      exact .inl ⟨rfl, List.append_nil _, rfl⟩
    | cons y more =>
      obtain ⟨rfl, _⟩ := List.cons_eq_cons.mp hmore
      exact absurd (List.mem_append_right _ List.mem_cons_self) reader

/-- A reader of a stream of lines has read part of one: there is a first line, and either its
terminator is next or another of its elements. -/
theorem front_of_frame (reader : terminator ∉ line)
    (h : line ++ x :: tail = frame terminator lines) :
    ∃ first rest, lines = first :: rest ∧
      ((x = terminator ∧ line = first ∧ tail = frame terminator rest) ∨
        (x ∈ first ∧ line.length < first.length)) := by
  cases lines with
  | nil =>
    rcases List.append_eq_nil_iff.mp h with ⟨_, h⟩
    cases h
  | cons first rest =>
    rw [frame_cons] at h
    exact ⟨first, rest, rfl, front_of_line reader h⟩

/-- A reader that has read all of a stream of lines without meeting a terminator has met none. -/
theorem eq_nil_of_frame (reader : terminator ∉ line) (h : line = frame terminator lines) :
    lines = [] := by
  cases lines with
  | nil => rfl
  | cons first rest =>
    rw [frame_cons] at h
    exact absurd (by rw [h]; exact List.mem_append_right _ List.mem_cons_self) reader

/-- Elements that end no line only make the current one longer. -/
theorem foldl_step_of_no_end (h : ∀ x ∈ line, isEnd x = false) (s : List (List α) × List α) :
    line.foldl (step isEnd) s = (s.1, s.2 ++ line) := by
  induction line generalizing s with
  | nil => rw [List.foldl_nil, List.append_nil]
  | cons x line ih =>
    rw [List.foldl_cons, ih fun y hy => h y (List.mem_cons_of_mem _ hy), step,
      h x List.mem_cons_self, if_neg Bool.false_ne_true, List.append_assoc]
    rfl

/-- The lines that were put into a stream are its lines again. -/
theorem split_frame (hends : isEnd terminator = true)
    (h : ∀ line ∈ lines, ∀ x ∈ line, isEnd x = false) :
    split isEnd (frame terminator lines) = (lines, []) := by
  induction lines using List.reverseRecOn with
  | nil => rfl
  | append_singleton lines line ih =>
    have hline := h line (List.mem_append_right _ (List.mem_singleton_self line))
    have hlines := ih fun line hline => h line (List.mem_append_left _ hline)
    rw [frame_append, ← List.append_assoc, split_append]
    have hsplit : split isEnd (frame terminator lines ++ line) = (lines, line) := by
      unfold split at hlines ⊢
      rw [List.foldl_append, hlines, foldl_step_of_no_end hline, List.nil_append]
    rw [hsplit, step, if_pos hends]

/-- Likewise if each line has a terminator of its own. -/
theorem split_terminated {ended : List (List α × α)}
    (h : ∀ line ∈ ended, (∀ x ∈ line.1, isEnd x = false) ∧ isEnd line.2 = true) :
    split isEnd (ended.flatMap fun line => line.1 ++ [line.2]) = (ended.map Prod.fst, []) := by
  induction ended using List.reverseRecOn with
  | nil => rfl
  | append_singleton ended line ih =>
    obtain ⟨hline, hends⟩ := h line (List.mem_append_right _ (List.mem_singleton_self line))
    have hended := ih fun line hline => h line (List.mem_append_left _ hline)
    rw [List.flatMap_append, List.flatMap_singleton, ← List.append_assoc, split_append, List.map_append]
    have hsplit : split isEnd ((ended.flatMap fun line => line.1 ++ [line.2]) ++ line.1) =
        (ended.map Prod.fst, line.1) := by
      unfold split at hended ⊢
      rw [List.foldl_append, hended, foldl_step_of_no_end hline, List.nil_append]
    rw [hsplit, step, if_pos hends]
    rfl

end Rtbus.Lines
