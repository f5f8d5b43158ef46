import Rtbus.Ble.Gatt

/-!
# The tables of the advertising data

There is one table for the advertising data and one for the scan response: up to four elements, and
the bytes that they point to. A table is cleared and then filled element by element, so that it has
the elements before the first one that is too long, but none of them counts, when the copy is
refused.
-/

namespace Rtbus.Ble

/-- `RUNTIME_BLE_GAP_DATA_MAX`. -/
abbrev gapDataMax : Nat := 4
/-- `RUNTIME_BLE_GAP_DATA_VALUE_MAX`. -/
abbrev gapDataValueMax : Nat := 31

/-- `struct runtime_ble_gap_data_def`. -/
structure GapDataDef where
  type : UInt8
  dataLen : UInt8
  data : Vector UInt8 gapDataValueMax

/-- `struct bt_data`. The data is `NULL` or a row of the values. -/
structure BtData where
  type : UInt8
  dataLen : UInt8
  data : Option Nat
  deriving DecidableEq

/-- A cleared element. -/
def BtData.zero : BtData := { type := 0, dataLen := 0, data := none }

/-- `rtbus_ble_app_ad` or `rtbus_ble_app_sd` with its values and its count. -/
structure GapTable where
  data : Vector BtData gapDataMax
  values : Vector (Vector UInt8 gapDataValueMax) gapDataMax
  count : UInt8
  deriving DecidableEq

/-- A cleared table. -/
def GapTable.zero : GapTable :=
  { data := Vector.replicate _ .zero
    values := Vector.replicate _ (Vector.replicate _ 0)
    count := 0 }

/-- `memcpy(row, d->data, d->data_len)`. -/
def GapDataDef.copy (d : GapDataDef) (row : Vector UInt8 gapDataValueMax) :
    Vector UInt8 gapDataValueMax :=
  Vector.ofFn fun k => if k.val < d.dataLen.toNat then d.data[k] else row[k]

/-- The element `i` of the table is written. -/
def GapTable.put (table : GapTable) (i : Fin gapDataMax) (d : GapDataDef) : GapTable :=
  { table with
    values := table.values.set i.val (d.copy table.values[i]) i.isLt
    data := table.data.set i.val { type := d.type, dataLen := d.dataLen, data := some i.val } i.isLt }

/-- The data is not too long for its row. -/
def GapDataDef.fits (d : GapDataDef) : Bool := d.dataLen.toNat ≤ gapDataValueMax

theorem slot_of_room {i n : Nat} (h : i + (n + 1) ≤ gapDataMax) : i < gapDataMax := by omega

theorem room_behind {i n : Nat} (h : i + (n + 1) ≤ gapDataMax) : i + 1 + n ≤ gapDataMax := by omega

/-- The loop of `rtbus_ble_gap_data_copy` from the element `i` on. -/
def gapDataFill : (defs : List GapDataDef) → (i : Nat) → i + defs.length ≤ gapDataMax → GapTable →
    Int × GapTable
  | [], _, _, table => (0, table)
  | d :: rest, i, h, table =>
    if d.dataLen.toNat > gapDataValueMax then (-EMSGSIZE, table)
    else gapDataFill rest (i + 1) (room_behind h) (table.put ⟨i, slot_of_room h⟩ d)

theorem Pointer.elements_room {α : Type} {count : Nat} (p : Pointer α count)
    (h : ¬ count > gapDataMax) : 0 + p.elements.length ≤ gapDataMax := by
  rw [Nat.zero_add]
  exact Nat.le_trans (List.length_take_le _ _) (Nat.not_lt.mp h)

/-- `rtbus_ble_gap_data_copy`. -/
def gapDataCopy {count : UInt8} (defs : Pointer GapDataDef count.toNat) (dst : GapTable) :
    Int × GapTable :=
  if h : count.toNat > gapDataMax then (-ENOMEM, dst)
  else if count ≠ 0 ∧ defs.target = none then (-EINVAL, dst)
  else
    let filled := gapDataFill defs.elements 0 (defs.elements_room h) .zero
    if filled.1 ≠ 0 then filled else (0, { filled.2 with count := count })

/-! ## What a copy leaves -/

/-- The table with these elements. -/
def GapTable.of (defs : List GapDataDef) (count : UInt8) : GapTable :=
  { data := Vector.ofFn fun i => (defs[i.val]?.map fun d =>
      { type := d.type, dataLen := d.dataLen, data := some i.val : BtData }).getD .zero
    values := Vector.ofFn fun i =>
      (defs[i.val]?.map fun d => d.copy (Vector.replicate _ 0)).getD (Vector.replicate _ 0)
    count := count }

/-- The copy is refused before the table is cleared. -/
def gapRefused {count : UInt8} (defs : Pointer GapDataDef count.toNat) : Prop :=
  count.toNat > gapDataMax ∨ (count ≠ 0 ∧ defs.target = none)

instance {count : UInt8} (defs : Pointer GapDataDef count.toNat) : Decidable (gapRefused defs) :=
  inferInstanceAs (Decidable (count.toNat > gapDataMax ∨ (count ≠ 0 ∧ defs.target = none)))

/-- Every element has room. -/
def gapFits {count : UInt8} (defs : Pointer GapDataDef count.toNat) : Prop :=
  ∀ d ∈ defs.elements, d.fits = true

instance {count : UInt8} (defs : Pointer GapDataDef count.toNat) : Decidable (gapFits defs) :=
  inferInstanceAs (Decidable (∀ d ∈ defs.elements, d.fits = true))

/-- The table behind a copy that is not refused at once: all the elements, or, uncounted, those
before the first one that is too long. -/
def gapLeft {count : UInt8} (defs : Pointer GapDataDef count.toNat) : GapTable :=
  if gapFits defs then .of defs.elements count
  else .of (defs.elements.takeWhile GapDataDef.fits) 0

theorem GapTable.of_nil : GapTable.of [] 0 = .zero := by decide +kernel

/-- The next free element is the next one of the list. -/
theorem GapTable.put_of {done : List GapDataDef} (h : done.length < gapDataMax) (d : GapDataDef) :
    (GapTable.of done 0).put ⟨done.length, h⟩ d = .of (done ++ [d]) 0 := by
  have hself : (done ++ [d])[done.length]? = some d := by
    rw [List.getElem?_append_right (Nat.le_refl _), Nat.sub_self]
    rfl
  have hother : ∀ i, i ≠ done.length → (done ++ [d])[i]? = done[i]? := by
    intro i hi
    rcases Nat.lt_or_ge i done.length with hlt | hge
    · exact List.getElem?_append_left hlt
    · rw [List.getElem?_eq_none hge, List.getElem?_eq_none]
      rw [List.length_append, List.length_singleton]
      omega
  have hnone : done[done.length]? = none := List.getElem?_eq_none (Nat.le_refl _)
  unfold GapTable.put GapTable.of
  congr 1
  · refine Vector.ext fun i hi => ?_
    rw [Vector.getElem_set, Vector.getElem_ofFn, Vector.getElem_ofFn]
    split
    · next heq => subst heq; rw [hself]; rfl
    · next hne => rw [hother i (Ne.symm hne)]
  · refine Vector.ext fun i hi => ?_
    rw [Vector.getElem_set, Vector.getElem_ofFn, Vector.getElem_ofFn]
    split
    · next heq =>
      subst heq
      rw [hself, Fin.getElem_fin, Vector.getElem_ofFn, hnone]
      rfl
    · next hne => rw [hother i (Ne.symm hne)]

/-- The loop stops at the first element that is too long. -/
theorem gapDataFill_eq : ∀ (rest done : List GapDataDef) (h : done.length + rest.length ≤ gapDataMax),
    gapDataFill rest done.length h (.of done 0) =
      if ∀ d ∈ rest, d.fits = true then (0, .of (done ++ rest) 0)
      else (-EMSGSIZE, .of (done ++ rest.takeWhile GapDataDef.fits) 0)
  | [], done, h => by
    rw [if_pos fun d hd => absurd hd List.not_mem_nil, List.append_nil]
    rfl
  | d :: rest, done, h => by
    have hlen : (done ++ [d]).length = done.length + 1 := by
      rw [List.length_append, List.length_singleton]
    unfold gapDataFill
    cases hd : d.fits with
    | false =>
      have hlong : d.dataLen.toNat > gapDataValueMax := Nat.not_le.mp (of_decide_eq_false hd)
      rw [if_pos hlong, if_neg fun hall => by simp [hall d List.mem_cons_self] at hd,
        List.takeWhile_cons_of_neg (by rw [hd]; exact Bool.false_ne_true), List.append_nil]
    | true =>
      have hshort : ¬ d.dataLen.toNat > gapDataValueMax := Nat.not_lt.mpr (of_decide_eq_true hd)
      have hrest := gapDataFill_eq rest (done ++ [d]) (hlen.symm ▸ room_behind h)
      rw [if_neg hshort, GapTable.put_of (slot_of_room h)]
      simp only [hlen] at hrest
      rw [hrest, List.takeWhile_cons_of_pos hd]
      simp only [List.append_assoc, List.singleton_append, List.forall_mem_cons, hd, true_and]

/-- `rtbus_ble_gap_data_copy` as a whole. -/
theorem gapDataCopy_eq {count : UInt8} (defs : Pointer GapDataDef count.toNat) (dst : GapTable) :
    (gapRefused defs → (gapDataCopy defs dst).1 < 0 ∧ (gapDataCopy defs dst).2 = dst) ∧
    (¬ gapRefused defs → gapDataCopy defs dst =
      (if gapFits defs then 0 else -EMSGSIZE, gapLeft defs)) := by
  unfold gapDataCopy
  have hnomem : -ENOMEM < 0 := by decide
  have hinval : -EINVAL < 0 := by decide
  constructor
  · rintro (hcount | hnull)
    · rw [dif_pos hcount]
      exact ⟨hnomem, rfl⟩
    · by_cases hcount : count.toNat > gapDataMax
      · rw [dif_pos hcount]
        exact ⟨hnomem, rfl⟩
      · rw [dif_neg hcount, if_pos hnull]
        exact ⟨hinval, rfl⟩
  · intro h
    obtain ⟨hcount, hnull⟩ := not_or.mp h
    rw [dif_neg hcount, if_neg hnull, ← GapTable.of_nil]
    have hfill : gapDataFill defs.elements 0 (defs.elements_room hcount) (.of [] 0) =
        if gapFits defs then (0, .of defs.elements 0)
        else (-EMSGSIZE, .of (defs.elements.takeWhile GapDataDef.fits) 0) :=
      gapDataFill_eq defs.elements [] (defs.elements_room hcount)
    rw [hfill, gapLeft]
    by_cases hfits : gapFits defs
    · rw [if_pos hfits, if_pos hfits, if_pos hfits]
      rfl
    · rw [if_neg hfits, if_neg hfits, if_neg hfits]
      rfl

end Rtbus.Ble
