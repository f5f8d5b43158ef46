import Rtbus.Base.Errno

/-!
# The registries of task entries

A task is registered by an `emos_entry`. There are two backends, of which a build has one: an
explicit table given to `rtbus_init` (`rtbus_entries.c`), and a linker section of entries
(`rtbus_iterable.c`). Both offer the same four functions; here a `Backend` is either of them with
its state. The type `H` stands for the handlers that `task_entry` may point to.
-/

namespace Rtbus.Emos

/-- `emos_entry_t`. A handler that is `none` is `NULL`. -/
structure Entry (H : Type) where
  taskId : UInt8
  priority : UInt8
  taskEntry : Option H
  init : Bool
  always : Bool

/-- `EMOS_TASK_PRIORITY_NUMBER`. -/
def taskPriorityNumber : Nat := 3

/-- An entry table with its `uint8_t` count. -/
structure EntryTable (H : Type) where
  entries : List (Entry H)
  count_lt : entries.length < 256

variable {H : Type}

/-- `emos_entry_id_is_duplicate`: more than one entry has this id. The counter has eight bits. -/
def entryIdIsDuplicate (entries : List (Entry H)) (entry : Entry H) : Bool :=
  entries.countP (·.taskId == entry.taskId) % 256 > 1

/-- The loop of `emos_entries_init` over the entries, the same in both backends. -/
def checkEntries (entries : List (Entry H)) : List (Entry H) → Ret
  | [] => .ok
  | entry :: rest =>
    if entry.priority.toNat ≥ taskPriorityNumber ∨ entry.taskEntry.isNone then .err .EINVAL
    else if entryIdIsDuplicate entries entry then .err .EALREADY
    else checkEntries entries rest

/-- A registry: the table that is registered, if any, or the entries of the section. -/
inductive Backend (H : Type)
  | table (registered : Option (List (Entry H)))
  | iterable (entries : List (Entry H))

namespace Backend

/-- `emos_entries_reset`. -/
def reset : Backend H → Backend H
  | table _ => table none
  | iterable entries => iterable entries

/-- `emos_entry_find`. -/
def find (b : Backend H) (taskId : UInt8) : Option (Entry H) :=
  match b with
  | table none => none
  | table (some entries) => entries.find? (·.taskId == taskId)
  | iterable entries => entries.find? (·.taskId == taskId)

/-- `emos_entry_get_by_index`. -/
def getByIndex (b : Backend H) (index : Nat) : Option (Entry H) :=
  match b with
  | table none => none
  | table (some entries) => entries[index]?
  | iterable entries => entries[index]?

/-- `emos_entries_init`: the registry, the result, and `*registered_count`. The section has its own
entries and ignores the arguments. -/
def init (b : Backend H) (entryTbl : Option (EntryTable H)) : Backend H × Ret × Nat :=
  match b with
  | table registered =>
    match entryTbl with
    | none => (table registered, .err .EINVAL, 0)
    | some tbl =>
      if tbl.entries.length = 0 then (table registered, .err .EINVAL, 0)
      else
        match checkEntries tbl.entries tbl.entries with
        | .ok => (table (some tbl.entries), .ok, tbl.entries.length)
        | .err e => (table none, .err e, 0)
  | iterable entries =>
    match checkEntries entries entries with
    | .ok =>
      if entries.length % 256 = 0 then (iterable entries, .err .ENODEV, 0)
      else (iterable entries, .ok, entries.length % 256)
    | .err e => (iterable entries, .err e, 0)

end Backend

/-- What an accepted registry guarantees about every entry found in it. -/
structure Registry (b : Backend H) : Prop where
  found : ∀ taskId entry, b.find taskId = some entry →
    entry.taskId = taskId ∧ entry.priority.toNat < taskPriorityNumber ∧ ∃ f, entry.taskEntry = some f

theorem checkEntries_ok {entries rest : List (Entry H)} (h : checkEntries entries rest = .ok) :
    ∀ entry ∈ rest, entry.priority.toNat < taskPriorityNumber ∧ ∃ f, entry.taskEntry = some f := by
  induction rest with
  | nil => simp
  | cons e rest ih =>
    rw [checkEntries] at h
    split at h
    · cases h
    · rename_i hgood
      split at h
      · cases h
      · intro entry hentry
        rcases List.mem_cons.mp hentry with rfl | hentry
        · simp only [not_or, Nat.not_le, Bool.not_eq_true, Option.isNone_eq_false_iff,
            Option.isSome_iff_exists] at hgood
          exact hgood
        · exact ih h entry hentry

theorem registry_of_find {b : Backend H} {entries : List (Entry H)}
    (hfind : ∀ taskId, b.find taskId = entries.find? (·.taskId == taskId))
    (h : checkEntries entries entries = .ok) : Registry b := by
  refine ⟨fun taskId entry hentry => ?_⟩
  rw [hfind] at hentry
  obtain ⟨hprio, hhandler⟩ := checkEntries_ok h entry (List.mem_of_find?_eq_some hentry)
  exact ⟨by simpa using List.find?_some hentry, hprio, hhandler⟩

/-- An accepted registry has entries and guarantees what callers rely on. -/
theorem Backend.init_ok {b b' : Backend H} {entryTbl : Option (EntryTable H)} {count : Nat}
    (h : b.init entryTbl = (b', .ok, count)) : Registry b' ∧ 0 < count := by
  cases b with
  | table registered =>
    cases entryTbl with
    | none => cases h
    | some tbl =>
      simp only [Backend.init] at h
      split at h
      · cases h
      · rename_i hlen
        cases hcheck : checkEntries tbl.entries tbl.entries with
        | err e =>
          rw [hcheck] at h
          cases h
        | ok =>
          rw [hcheck] at h
          cases h
          exact ⟨registry_of_find (fun _ => rfl) hcheck, Nat.pos_of_ne_zero hlen⟩
  | iterable entries =>
    simp only [Backend.init] at h
    cases hcheck : checkEntries entries entries with
    | err e =>
      rw [hcheck] at h
      cases h
    | ok =>
      rw [hcheck] at h
      dsimp only at h
      split at h
      · cases h
      · rename_i hlen
        cases h
        exact ⟨registry_of_find (fun _ => rfl) hcheck, Nat.pos_of_ne_zero hlen⟩

end Rtbus.Emos
