import Rtbus.Base.Pieces
import Rtbus.Ble.Bringup

/-!
# What a peer reads

The values of the characteristics are a shelf: a row for each service, with a cell for each of its
characteristics, which has the permission and the value. A registration that is admitted adds a row,
a value that is set takes the place of the one before, an initialisation clears the shelf, and nothing
else changes it (`Shelf.step`).

A peer goes the other way. It walks through the tables of the services that the stack has registered,
and reads every value it is permitted to with as many requests as its buffers make necessary; the
stack calls `rtbus_ble_app_gatt_read` for each of them. By `values_read_back` it finds the row of the
service, whatever has happened before, and what it is notified of is what it would read
(`notified_read_back`).

The stack is a parameter: `bt_gatt_attr_read`, of which only is assumed that it copies
(`Stack.CopiesValue`), and its decision about a permission, of which nothing is.
-/

namespace Rtbus.Ble

open Rtbus.Pieces

/-- `BT_ATT_ERR_UNLIKELY`. -/
def attErrUnlikely : Int := 0x0e

/-- What stands between a peer and the service. -/
structure Stack where
  /-- `bt_gatt_attr_read`, for a value and its length, the size of the buffer and an offset: the bytes
  that it copies, or the error. -/
  attrRead (value : List UInt8) (valueLen len offset : Nat) : Except Int (List UInt8)
  /-- Whether the peer may read an attribute with this permission. -/
  permits (perm : UInt8) : Bool

/-- `bt_gatt_attr_read` copies what is left of the value behind the offset, as far as the buffer takes
it. -/
def Stack.CopiesValue (stack : Stack) : Prop :=
  ∀ (value : List UInt8) (valueLen len offset : Nat), valueLen ≤ value.length → offset ≤ valueLen →
    stack.attrRead value valueLen len offset =
      .ok ((value.drop offset).take (min len (valueLen - offset)))

/-- `rtbus_ble_app_gatt_read`. There is no result if `user_data` points to something else than a
characteristic. -/
def appGattRead (stack : Stack) (s : State) (attr : Attr) (len offset : Nat) :
    Option (Except Int (List UInt8)) :=
  match attr.userData with
  | .null => some (.error (-attErrUnlikely))
  | .chrc handle j =>
    let chrc := (s.appGatts handle).chrcs j
    some (stack.attrRead chrc.value chrc.valueLen len offset)
  | _ => none

/-- What a peer gets for a request. -/
def peerRead (stack : Stack) (s : State) (attr : Attr) (len offset : Nat) : Option (List UInt8) :=
  if stack.permits attr.perm then
    match appGattRead stack s attr len offset with
    | some (.ok piece) => some piece
    | _ => none
  else none

/-- What it gets for as many requests as it takes, with answers of at most `len` bytes. -/
def peerReadLong (stack : Stack) (s : State) (attr : Attr) (len : Nat) : Option (List UInt8) :=
  readFrom (peerRead stack s attr len) len (gattValueMax + 1) 0

/-- The services that `bt_gatt_service_register` has taken. -/
def peerServices (s : State) : List Nat :=
  (List.range s.appGattCount).filter fun handle => (s.appGatts handle).registered

/-- The table of a service. -/
def AppGatt.table (gatt : AppGatt) : List Attr := (List.range gatt.attrCount).map gatt.attrs

/-- What a peer reads that walks through the table of a service, with nothing for a value that it is
not permitted to read. -/
def peerValues (stack : Stack) (s : State) (len handle : Nat) : List (Option (List UInt8)) :=
  ((s.appGatts handle).table.filter fun attr => attr.access = .appGattRead).map
    (peerReadLong stack s · len)

/-- The value of a characteristic. -/
def AppGattChrc.current (chrc : AppGattChrc) : List UInt8 := chrc.value.take chrc.valueLen

/-! ## The shelf -/

/-- A characteristic as a peer sees it. -/
structure Cell where
  perm : UInt8
  value : List UInt8

/-- What a peer may see of it. -/
def Cell.shown (stack : Stack) (cell : Cell) : Option (List UInt8) :=
  if stack.permits cell.perm then some cell.value else none

/-- The characteristics, by service and number. -/
abbrev Shelf := List (List Cell)

/-- The value of a request is not too long, and there. -/
def GattValueSetReq.storable (req : GattValueSetReq) : Prop :=
  req.valueLen.toNat ≤ gattValueMax ∧ (req.valueLen ≠ 0 → req.value.target ≠ none)

instance (req : GattValueSetReq) : Decidable req.storable :=
  inferInstanceAs (Decidable (req.valueLen.toNat ≤ gattValueMax ∧
    (req.valueLen ≠ 0 → req.value.target ≠ none)))

/-- What an event does to the values. -/
def Shelf.step : Event → Shelf → Shelf
  | .init, _ => []
  | .gattRegister _ (some d), shelf =>
    if d.acceptable ∧ shelf.length < appGattMax then
      shelf ++ [d.chrcs.elements.map fun c => ⟨appGattValuePerm c, c.value.elements⟩]
    else shelf
  | .gattValueSet _ _ (some req), shelf =>
    if req.storable then
      shelf.modify req.handle.toNat fun row =>
        row.modify req.chrc.toNat fun cell => { cell with value := req.value.elements }
    else shelf
  | _, shelf => shelf

/-- The characteristics of a service. -/
def AppGatt.row (gatt : AppGatt) : List Cell :=
  gatt.definition.mapIdx fun j d => ⟨appGattValuePerm d, (gatt.chrcs j).current⟩

/-- The shelf in a state. -/
def State.shelf (s : State) : Shelf :=
  (List.range s.appGattCount).map fun handle => (s.appGatts handle).row

/-- A shelf has a row for each service. -/
theorem State.shelf_length (s : State) : s.shelf.length = s.appGattCount := by
  unfold State.shelf
  rw [List.length_map, List.length_range]

/-- The row of a service. -/
theorem State.shelf_getElem? {s : State} {handle : Nat} (h : handle < s.appGattCount) :
    s.shelf[handle]? = some (s.appGatts handle).row := by
  unfold State.shelf
  rw [List.getElem?_map, List.getElem?_range h]
  rfl

/-- Two services with the same values. -/
structure SameRow (gatt gatt' : AppGatt) : Prop where
  definition : gatt'.definition = gatt.definition
  current : ∀ j, (gatt'.chrcs j).current = (gatt.chrcs j).current

/-- Services with the same cells have the same row. -/
theorem SameRow.row {gatt gatt' : AppGatt} (h : SameRow gatt gatt') : gatt'.row = gatt.row := by
  unfold AppGatt.row
  rw [h.definition]
  exact congrArg (List.mapIdx · _) (funext₂ fun j d => by rw [h.current j])

theorem SameRow.refl (gatt : AppGatt) : SameRow gatt gatt := ⟨rfl, fun _ => rfl⟩

/-- Cells that stay twice have stayed. -/
theorem SameRow.trans {gatt gatt' gatt'' : AppGatt} (h : SameRow gatt gatt')
    (h' : SameRow gatt' gatt'') : SameRow gatt gatt'' :=
  ⟨h'.definition.trans h.definition, fun j => (h'.current j).trans (h.current j)⟩

/-! ## What leaves the values alone -/

/-- The values of all services stay what they are. -/
structure SameValues (s s' : State) : Prop where
  count : s'.appGattCount = s.appGattCount
  rows : ∀ handle, SameRow (s.appGatts handle) (s'.appGatts handle)

theorem SameValues.refl (s : State) : SameValues s s := ⟨rfl, fun _ => .refl _⟩

/-- Values that stay twice have stayed. -/
theorem SameValues.trans {s s' s'' : State} (h : SameValues s s') (h' : SameValues s' s'') :
    SameValues s s'' :=
  ⟨h'.count.trans h.count, fun handle => (h.rows handle).trans (h'.rows handle)⟩

/-- What keeps the values keeps the shelf. -/
theorem SameValues.shelf {s s' : State} (h : SameValues s s') : s'.shelf = s.shelf := by
  unfold State.shelf
  rw [h.count]
  exact List.map_congr_left fun handle _ => (h.rows handle).row

/-- Where the services are the same, so are their values. -/
theorem SameValues.of_gatts {s s' : State} (count : s'.appGattCount = s.appGattCount)
    (gatts : s'.appGatts = s.appGatts) : SameValues s s' :=
  ⟨count, fun handle => by rw [gatts]; exact .refl _⟩

/-- A service may be replaced by one with the same cells. -/
theorem SameValues.setGatt {s : State} {handle : Nat} {gatt : AppGatt}
    (row : SameRow (s.appGatts handle) gatt) : SameValues s (s.setGatt handle gatt) := by
  refine ⟨rfl, fun k => ?_⟩
  change SameRow _ (Function.update s.appGatts handle gatt k)
  by_cases hk : k = handle
  · subst hk
    rwa [Function.update_self]
  · rw [Function.update_of_ne hk]
    exact .refl _

/-- Handing a service to the stack keeps its values. -/
theorem registerReady_sameRow (ret : Int) (gatt : AppGatt) :
    SameRow gatt (appGattRegisterReady ret gatt).2 := by
  unfold appGattRegisterReady
  split
  · exact .refl _
  · split
    · exact .refl _
    · exact ⟨rfl, fun _ => rfl⟩

/-- So does handing over all that are pending. -/
theorem registerPendingFrom_sameValues (rets : Nat → Int) (n i : Nat) (s : State) :
    SameValues s (appGattRegisterPendingFrom rets n i s).2 := by
  induction n generalizing i s with
  | zero => exact .refl _
  | succ n ih =>
    have hset := SameValues.setGatt (registerReady_sameRow (rets i) (s.appGatts i))
    unfold appGattRegisterPendingFrom
    dsimp only
    split
    · exact hset
    · exact hset.trans (ih _ _)

/-- The advertising data is not among the values. -/
theorem adSync_sameValues (s : State) : SameValues s (adSyncServiceUuid s) :=
  .of_gatts (adSyncServiceUuid_count s) (adSyncServiceUuid_gatts s)

/-- Bringing up the stack keeps the values. -/
theorem advBringUp_sameValues (config : Config) (codes : Codes) (s : State) :
    SameValues s (advBringUp config codes s).2 := by
  have pending := registerPendingFrom_sameValues codes.registerPending s.appGattCount 0 s
  unfold advBringUp
  split
  · exact .refl _
  · dsimp only
    split
    · exact pending
    · split
      · exact pending
      · split
        · exact pending
        · split
          · exact pending
          · exact pending.trans (.of_gatts rfl rfl)

/-- Beginning to advertise keeps them. -/
theorem advBegin_sameValues (codes : Codes) (s : State) : SameValues s (advBegin codes s).2 := by
  have pending := registerPendingFrom_sameValues codes.registerReady s.appGattCount 0 s
  have synced := pending.trans (adSync_sameValues (appGattRegisterPending codes.registerReady s).2)
  unfold advBegin
  dsimp only
  split
  · exact pending
  · split
    · exact synced
    · split
      · exact synced
      · exact synced.trans (.of_gatts rfl rfl)

/-- So does a request to advertise. -/
theorem advStartNow_sameValues (config : Config) (codes : Codes) (s : State) :
    SameValues s (advStartNow config codes s).2 := by
  have up := advBringUp_sameValues config codes s
  unfold advStartNow
  dsimp only
  split
  · exact up
  · exact up.trans (advBegin_sameValues codes _)

/-- A request to initialise the GAP writes the advertising data and no value. -/
theorem gapInitNow_sameValues (gapDef : Option GapDef) (s : State) :
    SameValues s (gapInitNow gapDef s).2 := by
  unfold gapInitNow
  cases gapDef with
  | none => exact .refl _
  | some d =>
    dsimp only
    split
    · exact .of_gatts rfl rfl
    · split <;> exact .of_gatts rfl rfl

/-- A subscription is not a value. -/
theorem cccChanged_sameValues (ccc : UserData) (value : UInt16) (s : State) :
    SameValues s (appGattCccChanged ccc value s) := by
  unfold appGattCccChanged
  split
  · exact .refl _
  · rename_i i j _
    refine .setGatt ⟨rfl, fun k => ?_⟩
    change (Function.update (s.appGatts i).chrcs j _ k).current = _
    by_cases hk : k = j
    · subst hk
      rw [Function.update_self]
      rfl
    · rw [Function.update_of_ne hk]

/-! ## What changes them -/

/-- What is stored in front of a row of bytes is read from there. -/
theorem current_of_copy {value old : List UInt8} {len : Nat} (h : value.length = len) :
    (value ++ old.drop value.length).take len = value := by
  rw [List.take_append_of_le_length (Nat.le_of_eq h.symm), List.take_of_length_le (Nat.le_of_eq h)]

/-- The length of what a pointer leads to, if it may be null only for no elements. -/
theorem elements_length {valueLen : UInt8} (p : Pointer UInt8 valueLen.toNat)
    (h : valueLen ≠ 0 → p.target ≠ none) : p.elements.length = valueLen.toNat := by
  by_cases hzero : valueLen = 0
  · have hle : p.elements.length ≤ valueLen.toNat := List.length_take_le _ _
    subst hzero
    exact Nat.le_antisymm hle (Nat.zero_le _)
  · exact Pointer.length_elements (h hzero)

/-- A service is built with the permissions and values of its definition. -/
theorem appGattBuild_row (handle : Nat) {d : ServiceDef} (hd : d.acceptable) :
    ∃ gatt, appGattBuild handle d = .ok gatt ∧
      gatt.row = d.chrcs.elements.map fun c => ⟨appGattValuePerm c, c.value.elements⟩ := by
  have hlen := Pointer.length_elements hd.1.2.2
  have hroom : ([] ++ d.chrcs.elements).length ≤ appGattChrcMax := hlen.symm ▸ hd.1.2.1
  obtain ⟨start, hstart, hfilled⟩ := start_filled handle d
  obtain ⟨gatt, hloop, hfilled⟩ := appGattAddChrcs_ok hfilled hroom hd.2
  rw [List.nil_append] at hloop hfilled
  have hbuild : appGattBuild handle d = .ok { gatt with
      chrcCount := d.chrcCount.toNat
      attrCount := declarationIndex handle d.chrcs.elements
      serviceAttrCount := declarationIndex handle d.chrcs.elements
      prepared := true
      definition := d.chrcs.elements } := by
    unfold appGattBuild
    rw [hstart, ok_bind]
    exact congrArg (· >>= _) hloop
  refine ⟨_, hbuild, ?_⟩
  unfold AppGatt.row
  dsimp only
  refine List.ext_getElem ?_ fun j _ hj => ?_
  · rw [List.length_mapIdx, List.length_map]
  rw [List.length_map] at hj
  have hbuilt := hfilled.built j d.chrcs.elements[j] (List.getElem?_eq_getElem hj)
  have hstorable := hd.2 _ (List.getElem_mem hj)
  rw [List.getElem_mapIdx, List.getElem_map, hbuilt]
  exact congrArg (Cell.mk _) (current_of_copy (elements_length _ hstorable.2))

/-- A service more is a row more. -/
theorem staged_shelf (s : State) (gatt : AppGatt) :
    (staged s gatt).shelf = s.shelf ++ [gatt.row] := by
  unfold State.shelf
  rw [staged_count, staged_gatts, List.range_succ, List.map_append, List.map_singleton,
    Function.update_self]
  congr 1
  refine List.map_congr_left fun handle hhandle => ?_
  rw [Function.update_of_ne (Nat.ne_of_lt (List.mem_range.mp hhandle))]

/-- An admitted registration adds the row of its definition. -/
theorem register_shelf {s s' : State} (h : Inv s) {ret code : Int} {offer : Option ServiceDef}
    (step : appGattNotifyRegisterNow ret offer s = some (code, s')) :
    s'.shelf = Shelf.step (.gattRegister ret offer) s.shelf := by
  by_cases hoffer : Admitted offer s
  · obtain ⟨d, rfl, hd, hroom⟩ := hoffer
    obtain ⟨gatt, hbuild, hrow⟩ := appGattBuild_row s.appGattCount hd
    obtain ⟨hzero, hmany, hnull⟩ := hd.1
    unfold appGattNotifyRegisterNow at step
    dsimp only at step
    rw [if_neg (not_or.mpr ⟨hzero, not_or.mpr ⟨Nat.not_lt.mpr hmany, hnull⟩⟩),
      if_neg (Nat.not_le.mpr hroom), hbuild] at step
    have same : SameValues (staged s gatt) s' := by
      have registered := SameValues.setGatt
        (registerReady_sameRow ret ((staged s gatt).appGatts s.appGattCount))
      change (if (staged s gatt).ready = true then _ else _) = _ at step
      split at step
      · split at step <;> cases step <;> exact registered
      · cases step
        exact .refl _
    show _ = if d.acceptable ∧ s.shelf.length < appGattMax then _ else s.shelf
    rw [if_pos ⟨hd, by rwa [s.shelf_length]⟩, same.shelf, staged_shelf, hrow]
  · obtain ⟨_, _, hres⟩ := appGattNotifyRegisterNow_refused h ret hoffer
    rw [hres] at step
    cases step
    cases offer with
    | none => rfl
    | some d =>
      show _ = if d.acceptable ∧ s.shelf.length < appGattMax then _ else s.shelf
      rw [if_neg fun hd => hoffer ⟨d, rfl, hd.1, by rw [← s.shelf_length]; exact hd.2⟩]

/-- A list of values in which one is changed. -/
theorem map_range_update {α : Type _} (g : Nat → α) (n j : Nat) (f : α → α) :
    (List.range n).map (Function.update g j (f (g j))) = ((List.range n).map g).modify j f := by
  refine List.ext_getElem (by simp) fun k hk hk' => ?_
  rw [List.getElem_map, List.getElem_range, List.getElem_modify, List.getElem_map,
    List.getElem_range]
  by_cases h : j = k
  · rw [if_pos h, h, Function.update_self]
  · rw [if_neg h, Function.update_of_ne fun heq => h heq.symm]

/-- The row of a service with one characteristic replaced. -/
theorem row_update (gatt : AppGatt) (j : Nat) (chrc : AppGattChrc) :
    AppGatt.row { gatt with chrcs := Function.update gatt.chrcs j chrc } =
      gatt.row.modify j fun cell => { cell with value := chrc.current } := by
  unfold AppGatt.row
  refine List.ext_getElem? fun k => ?_
  rw [List.getElem?_modify, List.getElem?_mapIdx, List.getElem?_mapIdx]
  dsimp only
  cases gatt.definition[k]? with
  | none => rfl
  | some d =>
    refine congrArg some ?_
    dsimp only
    by_cases h : j = k
    · subst h
      rw [if_pos rfl, Function.update_self]
    · rw [if_neg h, Function.update_of_ne fun heq => h heq.symm]

/-- The shelf when one service is replaced. -/
theorem setGatt_shelf {s : State} {handle : Nat} {gatt : AppGatt} {f : List Cell → List Cell}
    (row : gatt.row = f (s.appGatts handle).row) :
    (s.setGatt handle gatt).shelf = s.shelf.modify handle f := by
  unfold State.shelf
  rw [← map_range_update, ← row]
  refine List.map_congr_left fun k _ => ?_
  exact congrFun (Function.comp_update AppGatt.row s.appGatts handle gatt) k

/-- A copy is refused, or the characteristic has the new value. -/
theorem valueCopy_cases (chrc : AppGattChrc) (req : GattValueSetReq) :
    (¬ req.storable ∧ ∃ ret, appGattValueCopy chrc req.value = .error ret) ∨
      (req.storable ∧ ∃ chrc', appGattValueCopy chrc req.value = .ok chrc' ∧
        chrc'.current = req.value.elements) := by
  unfold appGattValueCopy
  by_cases hlong : req.valueLen.toNat > gattValueMax
  · exact .inl ⟨fun h => absurd h.1 (Nat.not_le.mpr hlong), _, if_pos hlong⟩
  · rw [if_neg hlong]
    by_cases hnull : req.valueLen ≠ 0 ∧ req.value.target = none
    · exact .inl ⟨fun h => h.2 hnull.1 hnull.2, _, if_pos hnull⟩
    · have hthere : req.valueLen ≠ 0 → req.value.target ≠ none := fun h h' => hnull ⟨h, h'⟩
      refine .inr ⟨⟨Nat.not_lt.mp hlong, hthere⟩, _, if_neg hnull, ?_⟩
      exact current_of_copy (elements_length _ hthere)

/-- A value that is set takes its place. -/
theorem valueSet_shelf {s : State} (h : Inv s) (isSubscribed : Bool) (notify : Int)
    (req : Option GattValueSetReq) :
    (appGattValueSetNow isSubscribed notify req s).2.shelf =
      Shelf.step (.gattValueSet isSubscribed notify req) s.shelf := by
  cases req with
  | none => rfl
  | some req =>
    show _ = if req.storable then
      s.shelf.modify req.handle.toNat fun row =>
        row.modify req.chrc.toNat fun cell => { cell with value := req.value.elements } else s.shelf
    unfold appGattValueSetNow
    dsimp only
    by_cases hhandle : req.handle.toNat ≥ s.appGattCount
    · rw [if_pos hhandle, List.modify_eq_self (by rwa [s.shelf_length]), ite_self]
    have hw := h.services _ (Nat.not_le.mp hhandle)
    rw [if_neg hhandle]
    by_cases hchrc : req.chrc.toNat ≥ (s.appGatts req.handle.toNat).chrcCount
    · have hlen : (s.appGatts req.handle.toNat).row.length ≤ req.chrc.toNat := by
        unfold AppGatt.row
        rwa [List.length_mapIdx, ← hw.chrcCount]
      have hsame : (s.setGatt req.handle.toNat (s.appGatts req.handle.toNat)).shelf =
          s.shelf.modify req.handle.toNat fun row =>
            row.modify req.chrc.toNat fun cell => { cell with value := req.value.elements } :=
        setGatt_shelf (List.modify_eq_self hlen).symm
      rw [if_pos (.inr hchrc), ← hsame, State.setGatt_self, ite_self]
    rw [if_neg fun hor => hor.elim (fun hp => hp hw.prepared) hchrc]
    rcases valueCopy_cases ((s.appGatts req.handle.toNat).chrcs req.chrc.toNat) req with
      ⟨hbad, ret, hcopy⟩ | ⟨hgood, chrc, hcopy, hcurrent⟩
    · rw [hcopy, if_neg hbad]
    · rw [hcopy, if_pos hgood]
      dsimp only
      rw [← hcurrent]
      split <;> exact setGatt_shelf (row_update _ _ _)

/-- Every event changes the values as on the shelf. -/
theorem process_shelf {config : Config} {event : Event} {s s' : State} (h : Inv s)
    (step : process config event s = some s') : s'.shelf = Shelf.step event s.shelf := by
  cases event with
  | init =>
    cases step
    rfl
  | advStart codes =>
    cases step
    exact (advStartNow_sameValues config codes s).shelf
  | gapInit gapDef =>
    cases step
    exact (gapInitNow_sameValues gapDef s).shelf
  | gattRegister ret offer =>
    obtain ⟨⟨code, s''⟩, hres, rfl⟩ := Option.map_eq_some_iff.mp step
    exact register_shelf h hres
  | gattValueSet isSubscribed notify req =>
    cases step
    exact valueSet_shelf h isSubscribed notify req
  | cccChanged ccc value =>
    cases step
    exact (cccChanged_sameValues ccc value s).shelf
  | connected err conn =>
    cases step
    exact SameValues.shelf (.of_gatts rfl rfl)
  | disconnected conn =>
    cases step
    unfold disconnected
    split
    · exact SameValues.shelf (.of_gatts rfl rfl)
    · rfl
  | recycled =>
    cases step
    exact SameValues.shelf (.of_gatts rfl rfl)

/-! ## What is read -/

section

variable {stack : Stack} {s : State} {attr : Attr} {handle j : Nat}

/-- The value attribute of a characteristic serves its value. -/
theorem peerRead_serves (copies : stack.CopiesValue) (permits : stack.permits attr.perm = true)
    (leads : attr.userData = .chrc handle j)
    (inside : ((s.appGatts handle).chrcs j).valueLen ≤ ((s.appGatts handle).chrcs j).value.length)
    (len : Nat) : Serves (peerRead stack s attr len) len ((s.appGatts handle).chrcs j).current := by
  intro offset hoffset
  unfold AppGattChrc.current at hoffset ⊢
  rw [List.length_take, Nat.min_eq_left inside] at hoffset
  unfold peerRead appGattRead
  rw [if_pos permits, leads]
  dsimp only
  rw [copies _ _ _ _ inside hoffset, List.drop_take, List.take_take]

/-- However small the pieces are, they make up the value, if it may be read. -/
theorem peerReadLong_eq (copies : stack.CopiesValue) (leads : attr.userData = .chrc handle j)
    {d : ChrcDef} {index : Nat} (described : Describes d index ((s.appGatts handle).chrcs j))
    {len : Nat} (pos : 0 < len) : peerReadLong stack s attr len =
      Cell.shown stack ⟨attr.perm, ((s.appGatts handle).chrcs j).current⟩ := by
  unfold Cell.shown
  by_cases permits : stack.permits attr.perm = true
  · have inside : ((s.appGatts handle).chrcs j).valueLen ≤
        ((s.appGatts handle).chrcs j).value.length := by
      rw [described.value]
      exact described.valueLen
    have hshort : ((s.appGatts handle).chrcs j).current.length ≤ gattValueMax :=
      Nat.le_trans (List.length_take_le _ _) described.valueLen
    rw [if_pos permits]
    exact (peerRead_serves copies permits leads inside len).readFrom pos (Nat.zero_le _) (by omega)
  · unfold peerReadLong readFrom peerRead
    rw [if_neg permits, if_neg permits]

end

/-- The table of a service as a list. -/
theorem WellFormed.table_eq {handle : Nat} {gatt : AppGatt} (h : WellFormed handle gatt) :
    gatt.table = attributes handle gatt.definition := by
  unfold AppGatt.table
  refine List.ext_getElem ?_ fun k _ hk => ?_
  · rw [List.length_map, List.length_range, h.attrCount]
  · rw [List.getElem_map, List.getElem_range, h.attrs k, List.getD_eq_getElem _ _ hk]

/-- What can be read of the application: one attribute for each characteristic. -/
theorem attributes_readable (handle : Nat) (defs : List ChrcDef) :
    (attributes handle defs).filter (fun attr => attr.access = .appGattRead) =
      defs.mapIdx (valueAttr handle) := by
  induction defs using List.reverseRecOn with
  | nil => rfl
  | append_singleton before d ih =>
    rw [attributes_concat, List.filter_append, ih, List.mapIdx_append, List.mapIdx_cons,
      List.mapIdx_nil, Nat.zero_add]
    congr 1
    unfold chrcAttrs
    cases notifies d <;> rfl

/-- A peer that walks through the table of a service reads what it may see of its row. -/
theorem Inv.peerValues_eq {stack : Stack} (copies : stack.CopiesValue) {s : State} (h : Inv s)
    {handle : Nat} (hhandle : handle < s.appGattCount) {len : Nat} (pos : 0 < len) :
    peerValues stack s len handle = (s.appGatts handle).row.map (Cell.shown stack) := by
  have hw := h.services handle hhandle
  unfold peerValues
  rw [hw.table_eq, attributes_readable]
  unfold AppGatt.row
  refine List.ext_getElem ?_ fun j hj _ => ?_
  · rw [List.length_map, List.length_mapIdx, List.length_map, List.length_mapIdx]
  · rw [List.length_map, List.length_mapIdx] at hj
    have hdescribed := hw.chrcs j _ (List.getElem?_eq_getElem hj)
    rw [List.getElem_map, List.getElem_mapIdx, List.getElem_map, List.getElem_mapIdx]
    exact peerReadLong_eq copies rfl hdescribed pos

/-- A run of events. -/
def State.run (config : Config) : List Event → State → Option State
  | [], s => some s
  | event :: events, s => (process config event s).bind (State.run config events)

/-- What a sequence of events does to the values. -/
def Shelf.after (events : List Event) (shelf : Shelf) : Shelf :=
  events.foldl (fun shelf event => Shelf.step event shelf) shelf

/-- The shelf after a run of events is what the events do to the shelf before it. -/
theorem run_shelf {config : Config} {events : List Event} {s s' : State} (h : Inv s)
    (run : s.run config events = some s') : Inv s' ∧ s'.shelf = Shelf.after events s.shelf := by
  induction events generalizing s with
  | nil =>
    cases run
    exact ⟨h, rfl⟩
  | cons event events ih =>
    obtain ⟨s₁, hstep, hrun⟩ := Option.bind_eq_some_iff.mp run
    obtain ⟨hinv, hshelf⟩ := ih (process_inv h hstep) hrun
    refine ⟨hinv, ?_⟩
    rw [hshelf, process_shelf h hstep]
    rfl

/-- After any events in any order a peer that walks through the services the stack has registered
reads, of each of them, the values that were last set and that it is permitted to read, however small
its buffers are. -/
theorem values_read_back (stack : Stack) (copies : stack.CopiesValue) {config : Config}
    {s s' : State} (h : Reachable config s) (events : List Event)
    (run : s.run config events = some s') (len : Nat) (pos : 0 < len) :
    (peerServices s').map (peerValues stack s' len) = (peerServices s').map fun handle =>
      ((Shelf.after events s.shelf).getD handle []).map (Cell.shown stack) := by
  obtain ⟨hinv, hshelf⟩ := run_shelf (reachable_inv h) run
  refine List.map_congr_left fun handle hhandle => ?_
  have hhandle := List.mem_range.mp (List.mem_filter.mp hhandle).1
  rw [← hshelf, List.getD_eq_getElem?_getD, State.shelf_getElem? hhandle]
  exact hinv.peerValues_eq copies hhandle pos

/-- A battery level of 55. -/
def levelReq : GattValueSetReq :=
  { handle := 0, chrc := 0, valueLen := 1, value := .to [55] (one_le_length _) }

/-- A stack that copies, and lets a peer read what has `BT_GATT_PERM_READ`. -/
def plainStack : Stack :=
  { attrRead := fun value valueLen len offset =>
      if offset > valueLen then .error (-7)
      else .ok ((value.drop offset).take (min len (valueLen - offset)))
    permits := fun perm => perm &&& permRead ≠ 0 }

/-- A stack that copies from the offset on, up to the room, is as documented. -/
theorem plainStack_copies : plainStack.CopiesValue :=
  fun _ _ _ _ _ inside => if_neg (Nat.not_lt.mpr inside)

/-- A level that is set before the stack is up is read from the service that it takes then. -/
theorem level_read_back : ∃ s, State.initial.run ⟨true, true⟩
      [.gattRegister 0 (some levelService), .gattValueSet false 0 (some levelReq),
        .advStart .zero] = some s ∧
    (peerServices s).map (peerValues plainStack s 1) = [[some [55]]] := by
  obtain ⟨s, run, services⟩ : ∃ s, State.initial.run ⟨true, true⟩
      [.gattRegister 0 (some levelService), .gattValueSet false 0 (some levelReq),
        .advStart .zero] = some s ∧ peerServices s = [0] := ⟨_, rfl, by decide⟩
  have read := values_read_back plainStack plainStack_copies .initial _ run 1 (by decide)
  exact ⟨s, run, read.trans (by rw [services]; decide)⟩

/-! ## What is notified -/

/-- A call of the stack about an attribute, with the connection it names. -/
inductive GattCall
  | isSubscribed (conn : UInt32) (attr : Attr)
  | notify (conn : UInt32) (attr : Attr) (bytes : List UInt8)
  deriving DecidableEq

/-- The calls of the stack in `rtbus_ble_app_gatt_value_set_now`. -/
def appGattValueSetCalls (isSubscribed : Bool) (req : Option GattValueSetReq) (s : State) :
    List GattCall :=
  match req with
  | none => []
  | some req =>
    if req.handle.toNat ≥ s.appGattCount then []
    else
      let gatt := s.appGatts req.handle.toNat
      if ¬ gatt.prepared ∨ req.chrc.toNat ≥ gatt.chrcCount then []
      else
        match appGattValueCopy (gatt.chrcs req.chrc.toNat) req.value with
        | .error _ => []
        | .ok chrc =>
          if gatt.registered && chrc.hasCcc && s.currentConn ≠ 0 then
            let attr := gatt.attrs chrc.valueAttrIndex
            .isSubscribed s.currentConn attr ::
              if isSubscribed then
                [.notify s.currentConn attr (chrc.value.take chrc.valueLen)]
              else []
          else []

/-- A notification is due for a characteristic that notifies, of a registered service, when its new
value can be stored and the peer of the connection has subscribed. -/
def NotificationDue (isSubscribed : Bool) (req : GattValueSetReq) (s : State) (d : ChrcDef) : Prop :=
  req.handle.toNat < s.appGattCount ∧
    (s.appGatts req.handle.toNat).definition[req.chrc.toNat]? = some d ∧ req.storable ∧
    (s.appGatts req.handle.toNat).registered = true ∧ notifies d = true ∧
    s.currentConn ≠ 0 ∧ isSubscribed = true

/-- What becomes of a value that can be stored. -/
theorem valueSet_stored {s : State} (h : Inv s) {req : GattValueSetReq} {d : ChrcDef}
    (hhandle : req.handle.toNat < s.appGattCount)
    (hd : (s.appGatts req.handle.toNat).definition[req.chrc.toNat]? = some d)
    (storable : req.storable) :
    ∃ chrc, appGattValueCopy ((s.appGatts req.handle.toNat).chrcs req.chrc.toNat) req.value =
        .ok chrc ∧
      chrc.current = req.value.elements ∧
      Describes d (declarationIndex req.handle.toNat
        ((s.appGatts req.handle.toNat).definition.take req.chrc.toNat)) chrc ∧
      (s.appGatts req.handle.toNat).attrs chrc.valueAttrIndex =
        valueAttr req.handle.toNat req.chrc.toNat d ∧
      ∀ isSubscribed notify, ∃ enabled,
        ((appGattValueSetNow isSubscribed notify (some req) s).2.appGatts req.handle.toNat).chrcs
          req.chrc.toNat = { chrc with notifyEnabled := enabled } := by
  have hw := h.services _ hhandle
  have hold := hw.chrcs _ _ hd
  have hchrc : req.chrc.toNat < (s.appGatts req.handle.toNat).chrcCount := by
    rw [hw.chrcCount]
    exact (List.getElem?_eq_some_iff.mp hd).1
  obtain ⟨chrc, hcopy, hcurrent⟩ : ∃ chrc,
      appGattValueCopy ((s.appGatts req.handle.toNat).chrcs req.chrc.toNat) req.value = .ok chrc ∧
        chrc.current = req.value.elements := by
    rcases valueCopy_cases ((s.appGatts req.handle.toNat).chrcs req.chrc.toNat) req with
      ⟨hbad, _⟩ | ⟨_, chrc, hcopy, hcurrent⟩
    · exact absurd storable hbad
    · exact ⟨chrc, hcopy, hcurrent⟩
  have hnew := appGattValueCopy_describes hcopy hold
  refine ⟨chrc, hcopy, hcurrent, hnew, ?_, fun isSubscribed notify => ?_⟩
  · rw [hnew.valueAttrIndex, ← hold.valueAttrIndex]
    exact (h.tabledChrc hhandle hd).value
  · unfold appGattValueSetNow
    dsimp only
    rw [if_neg (Nat.not_le.mpr hhandle),
      if_neg fun hor => hor.elim (fun hp => hp hw.prepared) (Nat.not_le.mpr hchrc), hcopy]
    dsimp only
    split
    all_goals
      unfold State.setGatt
      dsimp only
      rw [Function.update_self]
      exact ⟨_, Function.update_self _ _ _⟩

/-- A value that was stored is what a peer reads that may. -/
theorem valueSet_read {stack : Stack} (copies : stack.CopiesValue) {s : State} (h : Inv s)
    {req : GattValueSetReq} {d : ChrcDef} (hhandle : req.handle.toNat < s.appGattCount)
    (hd : (s.appGatts req.handle.toNat).definition[req.chrc.toNat]? = some d)
    (storable : req.storable) (isSubscribed : Bool) (notify : Int) {len : Nat} (pos : 0 < len) :
    peerReadLong stack (appGattValueSetNow isSubscribed notify (some req) s).2
      (valueAttr req.handle.toNat req.chrc.toNat d) len =
        Cell.shown stack ⟨appGattValuePerm d, req.value.elements⟩ := by
  obtain ⟨chrc, _, hcurrent, described, _, hset⟩ := valueSet_stored h hhandle hd storable
  obtain ⟨enabled, hset⟩ := hset isSubscribed notify
  have described' := described.notifyEnabled enabled
  rw [← hset] at described'
  rw [peerReadLong_eq copies rfl described' pos, hset, ← hcurrent]
  rfl

/-- The stack is told to notify exactly if a notification is due. -/
theorem notify_mem_iff {s : State} (hinv : Inv s) {isSubscribed : Bool} {req : GattValueSetReq}
    {conn : UInt32} {attr : Attr} {bytes : List UInt8} :
    .notify conn attr bytes ∈ appGattValueSetCalls isSubscribed (some req) s ↔
      ∃ d, NotificationDue isSubscribed req s d ∧ conn = s.currentConn ∧
        attr = valueAttr req.handle.toNat req.chrc.toNat d ∧ bytes = req.value.elements := by
  have hcount : ∀ hhandle : req.handle.toNat < s.appGattCount,
      (s.appGatts req.handle.toNat).chrcCount = (s.appGatts req.handle.toNat).definition.length :=
    fun hhandle => (hinv.services _ hhandle).chrcCount
  unfold appGattValueSetCalls
  dsimp only
  constructor
  · intro hmem
    split at hmem
    · cases hmem
    rename_i hhandle
    have hhandle := Nat.not_le.mp hhandle
    split at hmem
    · cases hmem
    rename_i hor
    have hchrc := Nat.not_le.mp (not_or.mp hor).2
    have hd := List.getElem?_eq_getElem (hcount hhandle ▸ hchrc)
    rcases valueCopy_cases ((s.appGatts req.handle.toNat).chrcs req.chrc.toNat) req with
      ⟨_, ret, hcopy⟩ | ⟨storable, _⟩
    · rw [hcopy] at hmem
      cases hmem
    obtain ⟨chrc, hcopy, hcurrent, described, hattr, _⟩ := valueSet_stored hinv hhandle hd storable
    rw [hcopy] at hmem
    dsimp only at hmem
    split at hmem
    · rename_i htold
      simp only [Bool.and_eq_true, decide_eq_true_eq] at htold
      obtain ⟨⟨hregistered, hnotifies⟩, hconn⟩ := htold
      rcases List.mem_cons.mp hmem with hmem | hmem
      · cases hmem
      · split at hmem
        · rename_i hsubscribed
          cases List.mem_singleton.mp hmem
          exact ⟨_, ⟨hhandle, hd, storable, hregistered, described.hasCcc ▸ hnotifies, hconn,
            hsubscribed⟩, rfl, hattr, hcurrent⟩
        · cases hmem
    · cases hmem
  · rintro ⟨d, ⟨hhandle, hd, storable, hregistered, hnotifies, hconn, hsubscribed⟩, rfl, rfl, rfl⟩
    obtain ⟨chrc, hcopy, hcurrent, described, hattr, _⟩ := valueSet_stored hinv hhandle hd storable
    have hchrc : ¬ req.chrc.toNat ≥ (s.appGatts req.handle.toNat).chrcCount := by
      rw [hcount hhandle]
      exact Nat.not_le.mpr (List.getElem?_eq_some_iff.mp hd).1
    have htold : ((s.appGatts req.handle.toNat).registered && chrc.hasCcc &&
        decide (s.currentConn ≠ 0)) = true := by
      rw [hregistered, described.hasCcc, hnotifies, decide_eq_true hconn]
      rfl
    rw [if_neg (Nat.not_le.mpr hhandle), if_neg fun hor =>
      hor.elim (fun hp => hp (hinv.services _ hhandle).prepared) hchrc, hcopy]
    dsimp only
    rw [if_pos htold, if_pos hsubscribed, hattr, ← hcurrent]
    exact List.mem_cons_of_mem _ (List.mem_singleton.mpr rfl)

/-- A value that is set is notified exactly if it can be stored, its service is registered, its
characteristic notifies and the connected peer has subscribed. The peer of the connection is then told
of the value attribute and the value, which is what it would read there, if it is permitted to read
it at all. -/
theorem notified_read_back (stack : Stack) (copies : stack.CopiesValue) {config : Config} {s : State}
    (h : Reachable config s) (isSubscribed : Bool) (notify : Int) (req : GattValueSetReq)
    (conn : UInt32) (attr : Attr) (bytes : List UInt8) (len : Nat) (pos : 0 < len) :
    (.notify conn attr bytes ∈ appGattValueSetCalls isSubscribed (some req) s ↔
      ∃ d, NotificationDue isSubscribed req s d ∧ conn = s.currentConn ∧
        attr = valueAttr req.handle.toNat req.chrc.toNat d ∧ bytes = req.value.elements) ∧
    (.notify conn attr bytes ∈ appGattValueSetCalls isSubscribed (some req) s →
      peerReadLong stack (appGattValueSetNow isSubscribed notify (some req) s).2 attr len =
        if stack.permits attr.perm then some bytes else none) := by
  have hinv := reachable_inv h
  refine ⟨notify_mem_iff hinv, fun hmem => ?_⟩
  obtain ⟨d, ⟨hhandle, hd, storable, _⟩, _, rfl, rfl⟩ := (notify_mem_iff hinv).mp hmem
  exact valueSet_read copies hinv hhandle hd storable isSubscribed notify pos

/-- The peer that has subscribed to the battery level is told of it. -/
theorem level_notified : ∃ s, Reachable ⟨true, true⟩ s ∧ s.currentConn = 0x20 ∧
    .notify 0x20 (valueAttr 0 0 levelChrc) [55] ∈ appGattValueSetCalls true (some levelReq) s ∧
    peerReadLong plainStack (appGattValueSetNow true 0 (some levelReq) s).2
      (valueAttr 0 0 levelChrc) 1 = some [55] := by
  obtain ⟨s, hreach, hconn, hnotified⟩ : ∃ s, Reachable ⟨true, true⟩ s ∧ s.currentConn = 0x20 ∧
      .notify 0x20 (valueAttr 0 0 levelChrc) [55] ∈ appGattValueSetCalls true (some levelReq) s :=
    ⟨_, .event (.connected 0 0x20) (.event (.advStart .zero)
      (.event (.gattRegister 0 (some levelService)) .initial rfl) rfl) rfl, rfl, by decide⟩
  have hread := (notified_read_back plainStack plainStack_copies hreach true 0 levelReq _ _ _ 1
    (by decide)).2 hnotified
  exact ⟨s, hreach, hconn, hnotified, hread⟩

end Rtbus.Ble
