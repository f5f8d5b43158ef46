import Mathlib.Data.List.Nodup
import Rtbus.Base.Scan
import Rtbus.Emos.Init

/-!
# The two entry registries, loop by loop

`rtbus_entries.c` keeps a pointer to a table and a count, and goes over the table by index.
`rtbus_iterable.c` goes over the entries of a linker section. A pointer to an entry is its position.
For the same entries the two do the same, and what they do is what the bus is modelled with
(`Backend`).
-/

namespace Rtbus.Emos

variable {H : Type}

/-- An entry has no priority queue or no handler. -/
def Entry.malformed (entry : Entry H) : Bool :=
  entry.priority.toNat ≥ taskPriorityNumber || entry.taskEntry.isNone

/-! ## The table -/

/-- `registered_entries` and `registered_entry_count`. -/
structure TableRegistry (H : Type) where
  entries : Option (List (Entry H))
  entryCount : UInt8

namespace TableRegistry

/-- `emos_entries_reset`. -/
def reset : TableRegistry H := { entries := none, entryCount := 0 }

/-- `emos_entry_find`. -/
def find (r : TableRegistry H) (taskId : UInt8) : Option Nat :=
  match r.entries with
  | none => none
  | some entries => Scan.first r.entryCount.toNat fun i =>
    entries[i]?.bind fun entry => if entry.taskId == taskId then some i else none

/-- `emos_entry_get_by_index`. -/
def getByIndex (r : TableRegistry H) (index : UInt8) : Option Nat :=
  if r.entries.isNone ∨ index ≥ r.entryCount then none else some index.toNat

/-- `emos_entry_id_is_duplicate` for a table of `entryCount` entries. -/
def idIsDuplicate (entries : List (Entry H)) (entryCount : UInt8) (entry : Entry H) : Bool :=
  (List.range entryCount.toNat).foldl (fun found i => entries[i]?.elim found fun other =>
    if other.taskId == entry.taskId then found + 1 else found) (0 : UInt8) > 1

/-- `emos_entries_init`: the registry, and the code or `*registered_count`. -/
def init (r : TableRegistry H) (entryTbl : Option (List (Entry H))) (entryCount : UInt8) :
    TableRegistry H × Except Errno UInt8 :=
  match entryTbl with
  | none => (r, .error .EINVAL)
  | some entries =>
    if entryCount = 0 then (r, .error .EINVAL)
    else
      let fault := Scan.first entryCount.toNat fun i => entries[i]?.bind fun entry =>
        if entry.malformed then some Errno.EINVAL
        else if idIsDuplicate entries entryCount entry then some Errno.EALREADY
        else none
      match fault with
      | some e => (reset, .error e)
      | none => ({ entries := some entries, entryCount := entryCount }, .ok entryCount)

end TableRegistry

/-! ## The section -/

namespace Section

/-- `emos_entry_find`, from the position `pos` on. -/
def findFrom (taskId : UInt8) : List (Entry H) → Nat → Option Nat
  | [], _ => none
  | entry :: rest, pos =>
    if entry.taskId == taskId then some pos else findFrom taskId rest (pos + 1)

/-- `emos_entry_find`. -/
def find (entries : List (Entry H)) (taskId : UInt8) : Option Nat := findFrom taskId entries 0

/-- `emos_entry_get_by_index`, from the position `pos` on. -/
def getByIndexFrom (index : UInt8) : List (Entry H) → Nat → UInt8 → Option Nat
  | [], _, _ => none
  | _ :: rest, pos, current =>
    if current = index then some pos else getByIndexFrom index rest (pos + 1) (current + 1)

/-- `emos_entry_get_by_index`. -/
def getByIndex (entries : List (Entry H)) (index : UInt8) : Option Nat :=
  getByIndexFrom index entries 0 0

/-- `emos_entry_id_is_duplicate`. -/
def idIsDuplicate (entries : List (Entry H)) (needle : Entry H) : Bool :=
  Scan.count8 (fun entry : Entry H => entry.taskId == needle.taskId) entries > 1

/-- The loop of `emos_entries_init`. -/
def initFrom (entries : List (Entry H)) : List (Entry H) → UInt8 → Except Errno UInt8
  | [], found => if found = 0 then .error .ENODEV else .ok found
  | entry :: rest, found =>
    if entry.malformed then .error .EINVAL
    else if idIsDuplicate entries entry then .error .EALREADY
    else initFrom entries rest (found + 1)

/-- `emos_entries_init`: the code or `*registered_count`. -/
def init (entries : List (Entry H)) : Except Errno UInt8 := initFrom entries entries 0

end Section

/-! ## What both do -/

/-- What is wrong with an entry of a list, by the order of the checks. -/
def fault (entries : List (Entry H)) (entry : Entry H) : Option Errno :=
  if entry.malformed then some .EINVAL
  else if entryIdIsDuplicate entries entry then some .EALREADY
  else none

/-- The scan of the section for a duplicate is that of the model. -/
theorem Section.idIsDuplicate_eq (entries : List (Entry H)) (entry : Entry H) :
    Section.idIsDuplicate entries entry = entryIdIsDuplicate entries entry := by
  unfold Section.idIsDuplicate entryIdIsDuplicate
  rw [← Scan.toNat_count8]
  rfl

/-- So is the scan of the table, as long as its counter has not wrapped. -/
theorem TableRegistry.idIsDuplicate_eq {entries : List (Entry H)} {count : UInt8}
    (hcount : count.toNat = entries.length) (entry : Entry H) :
    TableRegistry.idIsDuplicate entries count entry = entryIdIsDuplicate entries entry := by
  unfold TableRegistry.idIsDuplicate
  rw [hcount, Scan.foldl_range_getElem? entries
    (fun found other => if other.taskId == entry.taskId then found + 1 else found)]
  exact Section.idIsDuplicate_eq entries entry

/-- The table is taken if none of its entries has a fault, and the first fault is reported
otherwise. -/
theorem TableRegistry.init_eq (r : TableRegistry H) {entries : List (Entry H)} {count : UInt8}
    (hcount : count.toNat = entries.length) (nonempty : entries ≠ []) :
    r.init (some entries) count = match entries.findSome? (fault entries) with
      | some e => (reset, .error e)
      | none => ({ entries := some entries, entryCount := count }, .ok count) := by
  have hne : count ≠ 0 := by
    rintro rfl
    exact nonempty (List.eq_nil_of_length_eq_zero hcount.symm)
  unfold TableRegistry.init
  dsimp only
  rw [if_neg hne, hcount]
  simp only [TableRegistry.idIsDuplicate_eq hcount]
  rw [← Scan.first_getElem? entries (fault entries)]
  rfl

/-- The loop over the section reports the first fault, or how many entries it has found. -/
theorem Section.initFrom_eq (entries rest : List (Entry H)) (found : UInt8) :
    Section.initFrom entries rest found = match rest.findSome? (fault entries) with
      | some e => .error e
      | none => if found + UInt8.ofNat rest.length = 0 then .error .ENODEV
        else .ok (found + UInt8.ofNat rest.length) := by
  induction rest generalizing found with
  | nil =>
    change _ = if found + 0 = 0 then _ else Except.ok (found + 0)
    rw [UInt8.add_zero]
    rfl
  | cons entry rest ih =>
    rw [Section.initFrom, List.findSome?_cons, fault, Section.idIsDuplicate_eq]
    split
    · rfl
    · split
      · rfl
      · rw [ih, UInt8.add_assoc, List.length_cons, Nat.add_comm rest.length, UInt8.ofNat_add]
        rfl

/-- The table finds the first entry with the id. -/
theorem TableRegistry.find_eq {entries : List (Entry H)} {count : UInt8}
    (hcount : count.toNat = entries.length) (taskId : UInt8) :
    ({ entries := some entries, entryCount := count } : TableRegistry H).find taskId =
      entries.findIdx? (·.taskId == taskId) := by
  unfold TableRegistry.find
  dsimp only
  rw [hcount]
  cases h : entries.findIdx? (·.taskId == taskId) with
  | none =>
    rw [Scan.first_eq_none_iff]
    intro i hi
    rw [List.getElem?_eq_getElem hi, Option.bind_some]
    exact if_neg (Bool.eq_false_iff.mp
      (List.findIdx?_eq_none_iff.mp h _ (List.getElem_mem hi)))
  | some k =>
    obtain ⟨hk, hfound, hbefore⟩ := List.findIdx?_eq_some_iff_getElem.mp h
    refine Scan.first_eq_some hk ?_ fun i hi => ?_
    · rw [List.getElem?_eq_getElem hk, Option.bind_some]
      exact if_pos hfound
    · rw [List.getElem?_eq_getElem (Nat.lt_trans hi hk), Option.bind_some]
      exact if_neg (hbefore i hi)

/-- The loop over the section finds the first one behind where it starts. -/
theorem Section.findFrom_eq (taskId : UInt8) (rest : List (Entry H)) (pos : Nat) :
    Section.findFrom taskId rest pos =
      (rest.findIdx? (·.taskId == taskId)).map (· + pos) := by
  induction rest generalizing pos with
  | nil => rfl
  | cons entry rest ih =>
    rw [Section.findFrom, List.findIdx?_cons]
    split
    · rw [Option.map_some, Nat.zero_add]
    · rw [ih, Option.map_map]
      congr 1
      funext k
      exact (Nat.succ_add_eq_add_succ k pos).symm

/-- So the section finds the first entry with the id as well. -/
theorem Section.find_eq (entries : List (Entry H)) (taskId : UInt8) :
    Section.find entries taskId = entries.findIdx? (·.taskId == taskId) := by
  rw [Section.find, Section.findFrom_eq]
  exact Option.map_id'

/-- The counting loop gets to the index if there are entries enough for it. -/
theorem Section.getByIndexFrom_eq (index : UInt8) (rest : List (Entry H)) (current : UInt8)
    (hroom : current.toNat + rest.length < 256) :
    Section.getByIndexFrom index rest current.toNat current =
      if current.toNat ≤ index.toNat ∧ index.toNat < current.toNat + rest.length then
        some index.toNat
      else none := by
  induction rest generalizing current with
  | nil => exact (if_neg (by rw [List.length_nil]; omega)).symm
  | cons entry rest ih =>
    rw [List.length_cons] at hroom ⊢
    have hnext : (current + 1).toNat = current.toNat + 1 := by
      rw [UInt8.toNat_add, show (1 : UInt8).toNat = 1 from rfl]
      omega
    rw [Section.getByIndexFrom, ← hnext, ih (current + 1) (by omega), hnext]
    by_cases heq : current = index
    · rw [if_pos heq, if_pos (by rw [heq]; omega), heq]
    · have hne : current.toNat ≠ index.toNat := fun h => heq (UInt8.toNat_inj.mp h)
      rw [if_neg heq]
      congr 1
      exact propext ⟨fun h => by omega, fun h => by omega⟩

/-- The section has an entry for each index below its length. -/
theorem Section.getByIndex_eq {entries : List (Entry H)} (short : entries.length < 256)
    (index : UInt8) : Section.getByIndex entries index =
      if index.toNat < entries.length then some index.toNat else none := by
  have h := Section.getByIndexFrom_eq index entries 0 (by
    rw [show (0 : UInt8).toNat = 0 from rfl]
    omega)
  rw [show (0 : UInt8).toNat = 0 from rfl] at h
  rw [Section.getByIndex, h]
  congr 1
  exact propext ⟨fun h => by omega, fun h => by omega⟩

/-- So has the table. -/
theorem TableRegistry.getByIndex_eq {entries : List (Entry H)} {count : UInt8}
    (hcount : count.toNat = entries.length) (index : UInt8) :
    ({ entries := some entries, entryCount := count } : TableRegistry H).getByIndex index =
      if index.toNat < entries.length then some index.toNat else none := by
  unfold TableRegistry.getByIndex
  rw [← hcount]
  by_cases h : index.toNat < count.toNat
  · rw [if_pos h, if_neg]
    rintro (hnone | hge)
    · cases hnone
    · exact Nat.not_le.mpr h (UInt8.le_iff_toNat_le.mp hge)
  · rw [if_neg h, if_pos (.inr (UInt8.le_iff_toNat_le.mpr (Nat.not_lt.mp h)))]

/-! ## What the bus is modelled with -/

/-- The code and the count as the bus sees them. -/
def result : Except Errno UInt8 → Ret × Nat
  | .error e => (.err e, 0)
  | .ok count => (.ok, count.toNat)

/-- The check that the bus makes is for the first fault. -/
theorem checkEntries_eq (entries rest : List (Entry H)) : checkEntries entries rest =
    match rest.findSome? (fault entries) with
    | some e => .err e
    | none => .ok := by
  induction rest with
  | nil => rfl
  | cons entry rest ih =>
    have hformed : (entry.priority.toNat ≥ taskPriorityNumber ∨ entry.taskEntry.isNone = true) ↔
        entry.malformed = true := by
      unfold Entry.malformed
      rw [Bool.or_eq_true, decide_eq_true_iff]
    rw [checkEntries, List.findSome?_cons, fault, ih]
    simp only [hformed]
    cases entry.malformed with
    | true => rfl
    | false =>
      cases entryIdIsDuplicate entries entry with
      | true => rfl
      | false => rfl

/-- `Backend` has the table of `rtbus_entries.c`. -/
theorem TableRegistry.refines (r : TableRegistry H) (tbl : EntryTable H) :
    (Backend.table r.entries).init (some tbl) =
      (.table (r.init (some tbl.entries) (UInt8.ofNat tbl.entries.length)).1.entries,
        result (r.init (some tbl.entries) (UInt8.ofNat tbl.entries.length)).2) := by
  have hcount : (UInt8.ofNat tbl.entries.length).toNat = tbl.entries.length :=
    UInt8.toNat_ofNat_of_lt' tbl.count_lt
  unfold Backend.init
  dsimp only
  by_cases hempty : tbl.entries.length = 0
  · rw [if_pos hempty, hempty]
    rfl
  · rw [if_neg hempty, r.init_eq hcount (fun h => hempty (congrArg List.length h)), checkEntries_eq]
    cases tbl.entries.findSome? (fault tbl.entries) with
    | some e => rfl
    | none => exact congrArg (Prod.mk _ ∘ Prod.mk _) hcount.symm

/-- What the bus finds is what the table registry finds. -/
theorem TableRegistry.refines_find {entries : List (Entry H)} {count : UInt8}
    (hcount : count.toNat = entries.length) (taskId : UInt8) :
    (Backend.table (some entries)).find taskId =
      (({ entries := some entries, entryCount := count } : TableRegistry H).find taskId).bind
        (entries[·]?) := by
  rw [TableRegistry.find_eq hcount]
  exact List.find?_eq_bind_findIdx?_getElem?

/-- And what it gets by index is what the table registry gets. -/
theorem TableRegistry.refines_getByIndex {entries : List (Entry H)} {count : UInt8}
    (hcount : count.toNat = entries.length) (index : UInt8) :
    (Backend.table (some entries)).getByIndex index.toNat =
      (({ entries := some entries, entryCount := count } : TableRegistry H).getByIndex index).bind
        (entries[·]?) := by
  rw [TableRegistry.getByIndex_eq hcount]
  split
  · rfl
  · next h => exact List.getElem?_eq_none (Nat.not_lt.mp h)

/-- And the section of `rtbus_iterable.c`. -/
theorem Section.refines (entries : List (Entry H)) (entryTbl : Option (EntryTable H)) :
    (Backend.iterable entries).init entryTbl = (.iterable entries, result (Section.init entries)) := by
  have hcount : (UInt8.ofNat entries.length).toNat = entries.length % 256 := UInt8.toNat_ofNat'
  have hzero : UInt8.ofNat entries.length = 0 ↔ entries.length % 256 = 0 := by
    rw [← hcount]
    exact ⟨fun h => congrArg UInt8.toNat h, fun h => UInt8.toNat_inj.mp h⟩
  unfold Backend.init
  dsimp only
  rw [checkEntries_eq, Section.init, Section.initFrom_eq, UInt8.zero_add]
  cases entries.findSome? (fault entries) with
  | some e => rfl
  | none =>
    dsimp only
    by_cases hempty : entries.length % 256 = 0
    · rw [if_pos hempty, if_pos (hzero.mpr hempty)]
      rfl
    · rw [if_neg hempty, if_neg (fun h => hempty (hzero.mp h))]
      exact congrArg (Prod.mk _ ∘ Prod.mk _) hcount.symm

/-- The same for the section. -/
theorem Section.refines_find (entries : List (Entry H)) (taskId : UInt8) :
    (Backend.iterable entries).find taskId =
      (Section.find entries taskId).bind (entries[·]?) := by
  rw [Section.find_eq]
  exact List.find?_eq_bind_findIdx?_getElem?

/-- And for its entries by index, as long as there are fewer than 256. -/
theorem Section.refines_getByIndex {entries : List (Entry H)} (short : entries.length < 256)
    (index : UInt8) : (Backend.iterable entries).getByIndex index.toNat =
      (Section.getByIndex entries index).bind (entries[·]?) := by
  rw [Section.getByIndex_eq short]
  split
  · rfl
  · next h => exact List.getElem?_eq_none (Nat.not_lt.mp h)

/-! ## The same registry -/

/-- Nothing is wrong with a list whose entries are well formed and have ids of their own. -/
theorem faultless_iff {entries : List (Entry H)} (short : entries.length < 256) :
    entries.findSome? (fault entries) = none ↔
      (∀ entry ∈ entries, entry.priority.toNat < taskPriorityNumber ∧ entry.taskEntry ≠ none) ∧
      (entries.map Entry.taskId).Nodup := by
  have hformed : ∀ entry : Entry H, entry.malformed = false ↔
      entry.priority.toNat < taskPriorityNumber ∧ entry.taskEntry ≠ none := by
    intro entry
    unfold Entry.malformed
    rw [Bool.or_eq_false_iff, decide_eq_false_iff_not, Nat.not_le, Option.isNone_eq_false_iff,
      Option.isSome_iff_ne_none]
  have hunique : ∀ entry, entryIdIsDuplicate entries entry = false ↔
      (entries.map Entry.taskId).count entry.taskId ≤ 1 := by
    intro entry
    have hle := List.countP_le_length (p := fun e : Entry H => e.taskId == entry.taskId) (l := entries)
    unfold entryIdIsDuplicate
    rw [Nat.mod_eq_of_lt (by omega), decide_eq_false_iff_not, Nat.not_lt, List.count, List.countP_map]
    rfl
  have hfault : ∀ entry, fault entries entry = none ↔
      entry.malformed = false ∧ entryIdIsDuplicate entries entry = false := by
    intro entry
    unfold fault
    cases entry.malformed <;> cases entryIdIsDuplicate entries entry <;> simp
  rw [List.findSome?_eq_none_iff, List.nodup_iff_count_le_one]
  constructor
  · intro h
    refine ⟨fun entry mem => (hformed entry).mp ((hfault entry).mp (h entry mem)).1, fun id => ?_⟩
    by_cases hid : id ∈ entries.map Entry.taskId
    · obtain ⟨entry, mem, rfl⟩ := List.mem_map.mp hid
      exact (hunique entry).mp ((hfault entry).mp (h entry mem)).2
    · rw [List.count_eq_zero_of_not_mem hid]
      exact Nat.zero_le 1
  · rintro ⟨hall, hnodup⟩ entry mem
    exact (hfault entry).mpr
      ⟨(hformed entry).mpr (hall entry mem), (hunique entry).mpr (hnodup entry.taskId)⟩

/-- An entry with an id of its own is the one that is found. -/
theorem findIdx?_registered {entries : List (Entry H)} (hnodup : (entries.map Entry.taskId).Nodup)
    {pos : Nat} {entry : Entry H} (h : entries[pos]? = some entry) :
    entries.findIdx? (·.taskId == entry.taskId) = some pos := by
  obtain ⟨hpos, rfl⟩ := List.getElem?_eq_some_iff.mp h
  refine List.findIdx?_eq_some_iff_getElem.mpr ⟨hpos, beq_self_eq_true _, fun i hi heq => ?_⟩
  refine List.nodup_iff_getElem?_ne_getElem?.mp hnodup i pos hi (by rwa [List.length_map]) ?_
  rw [List.getElem?_map, List.getElem?_map, List.getElem?_eq_getElem hpos,
    List.getElem?_eq_getElem (Nat.lt_trans hi hpos), Option.map_some, Option.map_some,
    beq_iff_eq.mp heq]

/-- A table and a section with the same entries: the same code and count, a code 0 exactly for well
formed entries with ids of their own, and then the same entry for every id and every index. -/
theorem registries_interchangeable (r : TableRegistry H) {entries : List (Entry H)}
    (nonempty : 1 ≤ entries.length) (short : entries.length ≤ 255) :
    (r.init (some entries) (UInt8.ofNat entries.length)).2 = Section.init entries ∧
    ((∃ count, (r.init (some entries) (UInt8.ofNat entries.length)).2 = .ok count) ↔
      (∀ entry ∈ entries, entry.priority.toNat < taskPriorityNumber ∧ entry.taskEntry ≠ none) ∧
      (entries.map Entry.taskId).Nodup) ∧
    ∀ r' count, r.init (some entries) (UInt8.ofNat entries.length) = (r', .ok count) →
      count.toNat = entries.length ∧
      (∀ taskId, r'.find taskId = Section.find entries taskId) ∧
      (∀ index, r'.getByIndex index = Section.getByIndex entries index) ∧
      (∀ pos entry, entries[pos]? = some entry → r'.find entry.taskId = some pos) ∧
      ∀ taskId, (∀ entry ∈ entries, entry.taskId ≠ taskId) → r'.find taskId = none := by
  have hcount : (UInt8.ofNat entries.length).toNat = entries.length :=
    UInt8.toNat_ofNat_of_lt' (Nat.lt_succ_of_le short)
  have hne : entries ≠ [] := List.ne_nil_of_length_pos nonempty
  have hzero : ¬ UInt8.ofNat entries.length = 0 := by
    intro h
    rw [h] at hcount
    exact absurd hcount.symm (Nat.ne_of_gt nonempty)
  rw [r.init_eq hcount hne, Section.init, Section.initFrom_eq, ← faultless_iff (by omega)]
  cases hfault : entries.findSome? (fault entries) with
  | some e =>
    refine ⟨rfl, ⟨?_, fun h => absurd h (Option.some_ne_none e)⟩, fun r' count h => ?_⟩
    · rintro ⟨count, h⟩
      cases h
    · cases h
  | none =>
    refine ⟨?_, ⟨fun _ => rfl, fun _ => ⟨_, rfl⟩⟩, fun r' count h => ?_⟩
    · dsimp only
      rw [UInt8.zero_add, if_neg hzero]
    · cases h
      have hnodup := ((faultless_iff (by omega)).mp hfault).2
      refine ⟨hcount, fun taskId => ?_, fun index => ?_, fun pos entry hpos => ?_,
        fun taskId hother => ?_⟩
      · rw [TableRegistry.find_eq hcount, Section.find_eq]
      · rw [TableRegistry.getByIndex_eq hcount, Section.getByIndex_eq (by omega)]
      · rw [TableRegistry.find_eq hcount]
        exact findIdx?_registered hnodup hpos
      · rw [TableRegistry.find_eq hcount, List.findIdx?_eq_none_iff]
        exact fun entry mem => beq_eq_false_iff_ne.mpr (hother entry mem)

/-- Two tasks with ids and handlers. -/
def pairedEntries : List (Entry Unit) :=
  [⟨3, 2, some (), true, false⟩, ⟨7, 0, some (), false, true⟩]

theorem pairedEntries_interchangeable :
    (TableRegistry.reset.init (some pairedEntries) 2).2 = Section.init pairedEntries ∧
    Section.find pairedEntries 7 = some 1 :=
  ⟨(registries_interchangeable .reset (by decide) (by decide)).1, by decide⟩

end Rtbus.Emos
