import Rtbus.Base.Scan
import Rtbus.Ble.Service
import Rtbus.Ble.Table

/-!
# The tables stay well formed

Every event keeps `Inv`: at most two services, each of them well formed, and cleared slots behind
them. A registration is taken apart once (`appGattNotifyRegisterNow_cases`); what goes wrong in one
is read off there. `tables_well_formed` is the invariant in the words of the arrays.
-/

namespace Rtbus.Ble

/-- The invariant of the service. -/
structure Inv (s : State) : Prop where
  count : s.appGattCount ≤ appGattMax
  services : ∀ handle < s.appGattCount, WellFormed handle (s.appGatts handle)
  free : ∀ handle, s.appGattCount ≤ handle → s.appGatts handle = .zero

/-! ## One slot -/

/-- What makes a service well formed is not touched by what the events change. -/
theorem WellFormed.congr {handle : Nat} {gatt gatt' : AppGatt} (h : WellFormed handle gatt)
    (hprepared : gatt'.prepared = gatt.prepared) (hdefinition : gatt'.definition = gatt.definition)
    (hchrcCount : gatt'.chrcCount = gatt.chrcCount) (hattrCount : gatt'.attrCount = gatt.attrCount)
    (hattrs : gatt'.attrs = gatt.attrs)
    (hchrcs : ∀ j d index, Describes d index (gatt.chrcs j) → Describes d index (gatt'.chrcs j)) :
    WellFormed handle gatt' where
  prepared := hprepared.trans h.prepared
  room := by rw [hdefinition]; exact h.room
  chrcCount := by rw [hdefinition, hchrcCount]; exact h.chrcCount
  attrCount := by rw [hdefinition, hattrCount]; exact h.attrCount
  attrs := by rw [hdefinition, hattrs]; exact h.attrs
  chrcs := by rw [hdefinition]; exact fun j d hd => hchrcs j d _ (h.chrcs j d hd)

/-- A characteristic is written whose description stays. -/
theorem WellFormed.setChrc {handle j : Nat} {gatt : AppGatt} {chrc : AppGattChrc}
    (h : WellFormed handle gatt)
    (hchrc : ∀ d index, Describes d index (gatt.chrcs j) → Describes d index chrc) :
    WellFormed handle { gatt with chrcs := Function.update gatt.chrcs j chrc } :=
  h.congr rfl rfl rfl rfl rfl fun k d index hd => by
    change Describes d index (Function.update gatt.chrcs j chrc k)
    by_cases hk : k = j
    · subst hk
      rw [Function.update_self]
      exact hchrc d index hd
    · rw [Function.update_of_ne hk]
      exact hd

/-- The subscription of a characteristic is not part of its description. -/
theorem Describes.notifyEnabled {d : ChrcDef} {index : Nat} {chrc : AppGattChrc}
    (h : Describes d index chrc) (enabled : Bool) :
    Describes d index { chrc with notifyEnabled := enabled } :=
  ⟨h.properties, h.valueAttrIndex, h.hasCcc, h.cccAttrIndex, h.valueLen, h.value⟩

/-- A value that is taken changes nothing but the value. -/
theorem appGattValueCopy_describes {chrc chrc' : AppGattChrc} {valueLen : UInt8}
    {value : Pointer UInt8 valueLen.toNat} (h : appGattValueCopy chrc value = .ok chrc')
    {d : ChrcDef} {index : Nat} (hd : Describes d index chrc) : Describes d index chrc' := by
  unfold appGattValueCopy at h
  split at h
  · cases h
  · next hlen =>
    split at h
    · cases h
    · cases h
      refine ⟨hd.properties, hd.valueAttrIndex, hd.hasCcc, hd.cccAttrIndex, Nat.not_lt.mp hlen, ?_⟩
      have hle : value.elements.length ≤ valueLen.toNat := List.length_take_le _ _
      have := hd.value
      rw [List.length_append, List.length_drop, this]
      omega

/-- Handing a service to the stack changes its flag only. -/
theorem appGattRegisterReady_wellFormed {handle : Nat} {gatt : AppGatt} (h : WellFormed handle gatt)
    (ret : Int) : WellFormed handle (appGattRegisterReady ret gatt).2 := by
  unfold appGattRegisterReady
  split
  · exact h
  · split
    · exact h
    · exact h.congr rfl rfl rfl rfl rfl fun _ _ _ hd => hd

/-! ## The state -/

/-- The invariant is about the services and their number. -/
theorem Inv.congr {s s' : State} (h : Inv s) (hcount : s'.appGattCount = s.appGattCount)
    (hgatts : s'.appGatts = s.appGatts) : Inv s' where
  count := hcount ▸ h.count
  services := by rw [hcount, hgatts]; exact h.services
  free := by rw [hcount, hgatts]; exact h.free

/-- A service is replaced by another well-formed one. -/
theorem Inv.setGatt {s : State} (h : Inv s) {handle : Nat} {gatt : AppGatt}
    (hhandle : handle < s.appGattCount) (hgatt : WellFormed handle gatt) :
    Inv (s.setGatt handle gatt) where
  count := h.count
  services k hk := by
    change WellFormed k (Function.update s.appGatts handle gatt k)
    by_cases heq : k = handle
    · subst heq
      rwa [Function.update_self]
    · rw [Function.update_of_ne heq]
      exact h.services k hk
  free k hk := by
    have hne : k ≠ handle := fun heq => Nat.not_lt.mpr hk (heq ▸ hhandle)
    exact (Function.update_of_ne hne gatt s.appGatts).trans (h.free k hk)

/-- The advertising data follows the services and does not change their number. -/
theorem adSyncServiceUuid_count (s : State) :
    (adSyncServiceUuid s).appGattCount = s.appGattCount := by
  unfold adSyncServiceUuid
  split <;> rfl

/-- Nor does it change the services. -/
theorem adSyncServiceUuid_gatts (s : State) : (adSyncServiceUuid s).appGatts = s.appGatts := by
  unfold adSyncServiceUuid
  split <;> rfl

theorem Inv.sync {s : State} (h : Inv s) : Inv (adSyncServiceUuid s) :=
  h.congr (adSyncServiceUuid_count s) (adSyncServiceUuid_gatts s)

/-- Without services there is nothing to keep. -/
theorem Inv.appGattReset (s : State) : Inv (appGattReset s) :=
  Inv.sync ⟨Nat.zero_le _, fun _ h => absurd h (Nat.not_lt_zero _), fun _ _ => rfl⟩

/-- Registering what is pending does not change the number of services. -/
theorem appGattRegisterPendingFrom_count (rets : Nat → Int) : ∀ (n i : Nat) (s : State),
    (appGattRegisterPendingFrom rets n i s).2.appGattCount = s.appGattCount
  | 0, _, _ => rfl
  | n + 1, i, s => by
    unfold appGattRegisterPendingFrom
    dsimp only
    split
    · rfl
    · exact appGattRegisterPendingFrom_count rets n (i + 1) _

/-- The loop over the pending services keeps the invariant, whatever the stack returns. -/
theorem Inv.registerPendingFrom {rets : Nat → Int} : ∀ {n i : Nat} {s : State}, Inv s →
    i + n ≤ s.appGattCount → Inv (appGattRegisterPendingFrom rets n i s).2
  | 0, _, _, h, _ => h
  | n + 1, i, s, h, hn => by
    have hi : i < s.appGattCount := by omega
    have hset := h.setGatt hi (appGattRegisterReady_wellFormed (h.services i hi) (rets i))
    unfold appGattRegisterPendingFrom
    dsimp only
    split
    · exact hset
    · exact hset.registerPendingFrom (show i + 1 + n ≤ s.appGattCount by omega)

/-- So does the whole registration. -/
theorem Inv.registerPending {s : State} (h : Inv s) (rets : Nat → Int) :
    Inv (appGattRegisterPending rets s).2 :=
  h.registerPendingFrom (Nat.le_of_eq (Nat.zero_add _))

/-- Bringing up the stack registers what is pending, and leaves the services alone else. -/
theorem Inv.advBringUp {s : State} (h : Inv s) (config : Config) (codes : Codes) :
    Inv (advBringUp config codes s).2 := by
  have hpending := h.registerPending codes.registerPending
  unfold Ble.advBringUp
  dsimp only
  split
  · exact h
  · split
    · exact hpending
    · split
      · exact hpending
      · split
        · exact hpending
        · split
          · exact hpending
          · exact hpending.congr rfl rfl

/-- Beginning to advertise leaves the services alone. -/
theorem Inv.advBegin {s : State} (h : Inv s) (codes : Codes) : Inv (advBegin codes s).2 := by
  have hpending := h.registerPending codes.registerReady
  unfold Ble.advBegin
  dsimp only
  split
  · exact hpending
  · split
    · exact hpending.sync
    · split
      · exact hpending.sync
      · exact hpending.sync.congr rfl rfl

/-- A request to advertise keeps the invariant, with any codes of the stack. -/
theorem Inv.advStartNow {s : State} (h : Inv s) (config : Config) (codes : Codes) :
    Inv (advStartNow config codes s).2 := by
  have hup := h.advBringUp config codes
  unfold Ble.advStartNow
  dsimp only
  split
  · exact hup
  · exact hup.advBegin codes

/-- A request to initialise the GAP keeps it, taken or refused. -/
theorem Inv.gapInitNow {s : State} (h : Inv s) (gapDef : Option GapDef) :
    Inv (gapInitNow gapDef s).2 := by
  unfold Ble.gapInitNow
  cases gapDef with
  | none => exact h
  | some d =>
    dsimp only
    split
    · exact h.congr rfl rfl
    · split
      · exact h.congr rfl rfl
      · exact h.congr rfl rfl

/-- A request to set a value keeps it: a value is stored only up to its capacity. -/
theorem Inv.appGattValueSetNow {s : State} (h : Inv s) (isSubscribed : Bool) (notify : Int)
    (req : Option GattValueSetReq) : Inv (appGattValueSetNow isSubscribed notify req s).2 := by
  unfold Ble.appGattValueSetNow
  cases req with
  | none => exact h
  | some req =>
    dsimp only
    split
    · exact h
    · next hhandle =>
      split
      · exact h
      · cases hcopy : appGattValueCopy
            ((s.appGatts req.handle.toNat).chrcs req.chrc.toNat) req.value with
        | error ret => exact h
        | ok chrc =>
          have hhandle := Nat.not_le.mp hhandle
          have hset := h.setGatt hhandle ((h.services _ hhandle).setChrc
            fun d index hd => (appGattValueCopy_describes hcopy hd).notifyEnabled
              (if (s.appGatts req.handle.toNat).registered && chrc.hasCcc && s.currentConn ≠ 0
                then isSubscribed else chrc.notifyEnabled))
          dsimp only
          split
          · exact hset
          · exact hset

/-- What a callback finds is a characteristic of a registered service. -/
theorem appGattFindChrcCcc_lt {s : State} {ccc : UserData} {i j : Nat}
    (h : appGattFindChrcCcc s ccc = some (i, j)) : i < s.appGattCount := by
  obtain ⟨k, hk, hinner⟩ := List.exists_of_findSome?_eq_some h
  obtain ⟨l, hl, heq⟩ := List.exists_of_findSome?_eq_some hinner
  split at heq
  · cases heq
    exact List.mem_range.mp hk
  · cases heq

/-- A peer that subscribes changes one flag. -/
theorem Inv.appGattCccChanged {s : State} (h : Inv s) (ccc : UserData) (value : UInt16) :
    Inv (appGattCccChanged ccc value s) := by
  unfold Ble.appGattCccChanged
  cases hfind : appGattFindChrcCcc s ccc with
  | none => exact h
  | some found =>
    obtain ⟨i, j⟩ := found
    have hi := appGattFindChrcCcc_lt hfind
    exact h.setGatt hi ((h.services i hi).setChrc fun d index hd => hd.notifyEnabled _)

/-! ## Registrations -/

/-- The offer passes every check. -/
def Admitted (offer : Option ServiceDef) (s : State) : Prop :=
  ∃ d, offer = some d ∧ d.acceptable ∧ s.appGattCount < appGattMax

/-- The state with one service more. -/
def staged (s : State) (gatt : AppGatt) : State :=
  adSyncServiceUuid { s.setGatt s.appGattCount gatt with appGattCount := s.appGattCount + 1 }

theorem staged_count (s : State) (gatt : AppGatt) :
    (staged s gatt).appGattCount = s.appGattCount + 1 := adSyncServiceUuid_count _

/-- Staging a service writes the next free slot. -/
theorem staged_gatts (s : State) (gatt : AppGatt) :
    (staged s gatt).appGatts = Function.update s.appGatts s.appGattCount gatt :=
  adSyncServiceUuid_gatts _

theorem staged_ready (s : State) (gatt : AppGatt) : (staged s gatt).ready = s.ready := by
  unfold staged adSyncServiceUuid
  split <;> rfl

/-- Writing back what is there changes nothing. -/
theorem State.setGatt_self (s : State) (handle : Nat) : s.setGatt handle (s.appGatts handle) = s := by
  rw [State.setGatt, Function.update_eq_self]

/-- A service that is staged with room for it is one more well-formed service. -/
theorem Inv.staged {s : State} (h : Inv s) (hroom : s.appGattCount < appGattMax) {gatt : AppGatt}
    (hgatt : WellFormed s.appGattCount gatt) : Inv (staged s gatt) where
  count := by rw [staged_count]; exact hroom
  services k hk := by
    rw [staged_count] at hk
    rw [staged_gatts]
    by_cases heq : k = s.appGattCount
    · subst heq
      rwa [Function.update_self]
    · rw [Function.update_of_ne heq]
      exact h.services k (by omega)
  free k hk := by
    rw [staged_count] at hk
    rw [staged_gatts, Function.update_of_ne (by omega)]
    exact h.free k (by omega)

/-- An offer that does not pass leaves the state as it is: the slot that is cleared again was
cleared before. -/
theorem appGattNotifyRegisterNow_refused {s : State} (h : Inv s) (ret : Int)
    {offer : Option ServiceDef} (hoffer : ¬ Admitted offer s) :
    ∃ code < 0, appGattNotifyRegisterNow ret offer s = some (code, s) := by
  unfold appGattNotifyRegisterNow
  cases offer with
  | none => exact ⟨-EINVAL, by decide, rfl⟩
  | some d =>
    dsimp only
    split
    · exact ⟨-EINVAL, by decide, rfl⟩
    · next hoffered =>
      obtain ⟨hzero, hmany, hnull⟩ := not_or.mp hoffered |>.imp_right not_or.mp
      split
      · exact ⟨-ENOMEM, by decide, rfl⟩
      · next hroom =>
        obtain ⟨code, hcode, hbuild⟩ := appGattBuild_refused s.appGattCount
          (show d.offered from ⟨hzero, Nat.not_lt.mp hmany, hnull⟩)
          (fun hd => hoffer ⟨d, rfl, hd, Nat.not_le.mp hroom⟩)
        refine ⟨code, hcode, ?_⟩
        rw [hbuild]
        dsimp only
        rw [← h.free s.appGattCount (Nat.le_refl _), State.setGatt_self]

/-- An offer that passes is staged, and registered at once when the stack is ready. -/
theorem appGattNotifyRegisterNow_admitted {s : State} (ret : Int) {offer : Option ServiceDef}
    (hoffer : Admitted offer s) : ∃ gatt,
      WellFormed s.appGattCount gatt ∧
      appGattNotifyRegisterNow ret offer s =
        if s.ready = true then
          if ret = 0 then some ((s.appGattCount : Int),
            (staged s gatt).setGatt s.appGattCount { gatt with registered := true })
          else some (ret, staged s gatt)
        else some ((s.appGattCount : Int), staged s gatt) := by
  obtain ⟨d, rfl, hd, hroom⟩ := hoffer
  obtain ⟨gatt, hbuild, hgatt, hregistered⟩ := appGattBuild_ok s.appGattCount hd
  obtain ⟨hzero, hmany, hnull⟩ := hd.1
  refine ⟨gatt, hgatt, ?_⟩
  have hself : (staged s gatt).appGatts s.appGattCount = gatt := by
    rw [staged_gatts, Function.update_self]
  have hkept : (staged s gatt).setGatt s.appGattCount gatt = staged s gatt :=
    (congrArg _ hself.symm).trans (State.setGatt_self _ _)
  unfold appGattNotifyRegisterNow
  dsimp only
  rw [if_neg (not_or.mpr ⟨hzero, not_or.mpr ⟨Nat.not_lt.mpr hmany, hnull⟩⟩),
    if_neg (Nat.not_le.mpr hroom), hbuild]
  dsimp only
  change (if (staged s gatt).ready = true then
      if (appGattRegisterReady ret ((staged s gatt).appGatts s.appGattCount)).1 ≠ 0 then
        some ((appGattRegisterReady ret ((staged s gatt).appGatts s.appGattCount)).1,
          (staged s gatt).setGatt s.appGattCount
            (appGattRegisterReady ret ((staged s gatt).appGatts s.appGattCount)).2)
      else some ((s.appGattCount : Int), (staged s gatt).setGatt s.appGattCount
        (appGattRegisterReady ret ((staged s gatt).appGatts s.appGattCount)).2)
    else some ((s.appGattCount : Int), staged s gatt)) = _
  rw [hself, staged_ready]
  by_cases hret : ret = 0
  · have hready : appGattRegisterReady ret gatt = (0, { gatt with registered := true }) := by
      rw [appGattRegisterReady, if_neg (by rw [hregistered]; decide), if_neg (not_not.mpr hret)]
    rw [hready, if_pos hret, if_neg (not_not.mpr rfl)]
  · have hready : appGattRegisterReady ret gatt = (ret, gatt) := by
      rw [appGattRegisterReady, if_neg (by rw [hregistered]; decide), if_pos hret]
    rw [hready, if_neg hret, if_pos hret, hkept]

/-- A request to register returns a code and keeps the invariant, whatever the definition. -/
theorem Inv.appGattNotifyRegisterNow {s : State} (h : Inv s) (ret : Int)
    (offer : Option ServiceDef) :
    ∃ code s', appGattNotifyRegisterNow ret offer s = some (code, s') ∧ Inv s' := by
  by_cases hoffer : Admitted offer s
  · obtain ⟨gatt, hgatt, heq⟩ := appGattNotifyRegisterNow_admitted ret hoffer
    obtain ⟨_, _, _, hroom⟩ := hoffer
    have hstaged := h.staged hroom hgatt
    rw [heq]
    split
    · split
      · refine ⟨_, _, rfl, hstaged.setGatt ?_ (hgatt.congr rfl rfl rfl rfl rfl fun _ _ _ hd => hd)⟩
        rw [staged_count]
        exact Nat.lt_succ_self _
      · exact ⟨_, _, rfl, hstaged⟩
    · exact ⟨_, _, rfl, hstaged⟩
  · obtain ⟨code, _, heq⟩ := appGattNotifyRegisterNow_refused h ret hoffer
    exact ⟨code, s, heq, h⟩

/-! ## Every event -/

/-- One event keeps the invariant. -/
theorem process_inv {config : Config} {event : Event} {s s' : State} (h : Inv s)
    (hstep : process config event s = some s') : Inv s' := by
  cases event with
  | init => cases hstep; exact Inv.appGattReset _
  | advStart codes => cases hstep; exact h.advStartNow config codes
  | gapInit gapDef => cases hstep; exact h.gapInitNow gapDef
  | gattRegister ret offer =>
    obtain ⟨code, s'', heq, hinv⟩ := h.appGattNotifyRegisterNow ret offer
    rw [process, heq] at hstep
    cases hstep
    exact hinv
  | gattValueSet isSubscribed notify req =>
    cases hstep
    exact h.appGattValueSetNow isSubscribed notify req
  | cccChanged ccc value => cases hstep; exact h.appGattCccChanged ccc value
  | connected err conn => cases hstep; exact h.congr rfl rfl
  | disconnected conn =>
    cases hstep
    unfold disconnected
    split
    · exact h.congr rfl rfl
    · exact h
  | recycled => cases hstep; exact h.congr rfl rfl

/-- Every reachable state is in order. -/
theorem reachable_inv {config : Config} {s : State} (h : Reachable config s) : Inv s := by
  induction h with
  | initial =>
    exact ⟨Nat.zero_le _, fun _ h => absurd h (Nat.not_lt_zero _), fun _ _ => rfl⟩
  | event event _ hstep ih => exact process_inv ih hstep

/-! ## The arrays -/

/-- The characteristic `j` of a slot, as it was defined, and its attributes. -/
structure TabledChrc (s : State) (handle j : Nat) (d : ChrcDef) : Prop where
  inside : 0 < ((s.appGatts handle).chrcs j).valueAttrIndex ∧
    ((s.appGatts handle).chrcs j).valueAttrIndex < (s.appGatts handle).attrCount
  properties : ((s.appGatts handle).chrcs j).properties = appGattProperties d
  declaration : (s.appGatts handle).attrs (((s.appGatts handle).chrcs j).valueAttrIndex - 1) =
    declarationAttr handle j
  value : (s.appGatts handle).attrs ((s.appGatts handle).chrcs j).valueAttrIndex =
    valueAttr handle j d
  valueLen : ((s.appGatts handle).chrcs j).valueLen ≤ gattValueMax
  configured_iff :
    (((s.appGatts handle).chrcs j).valueAttrIndex + 1 < (s.appGatts handle).attrCount ∧
      ((s.appGatts handle).attrs (((s.appGatts handle).chrcs j).valueAttrIndex + 1)).uuid =
        .gattCcc) ↔ notifies d = true
  configuration : notifies d = true →
    (s.appGatts handle).attrs (((s.appGatts handle).chrcs j).valueAttrIndex + 1) =
      cccAttr handle j d
  found : notifies d = true → appGattFindChrcCcc s ((s.appGatts handle).attrs
    (((s.appGatts handle).chrcs j).valueAttrIndex + 1)).userData = some (handle, j)

/-- A slot and its table. -/
structure Tabled (s : State) (handle : Nat) : Prop where
  chrcCount : (s.appGatts handle).chrcCount = (s.appGatts handle).definition.length
  attrCount : (s.appGatts handle).attrCount =
    1 + 2 * (s.appGatts handle).chrcCount + (s.appGatts handle).definition.countP notifies
  room : (s.appGatts handle).attrCount ≤ 13
  chrcs : ∀ j d, (s.appGatts handle).definition[j]? = some d → TabledChrc s handle j d

/-- The callbacks find the characteristic that a configuration belongs to. -/
theorem appGattFindChrcCcc_valueCcc {s : State} {handle j : Nat} (hhandle : handle < s.appGattCount)
    (hj : j < (s.appGatts handle).chrcCount) :
    appGattFindChrcCcc s (.valueCcc handle j) = some (handle, j) := by
  refine Scan.first_eq_some hhandle (Scan.first_eq_some hj (if_pos rfl) fun k hk => ?_) fun i hi => ?_
  · exact if_neg fun h => by cases h; omega
  · exact Scan.first_eq_none_iff.mpr fun k _ => if_neg fun h => by cases h; omega

/-- What the array has at a place of the cut list. -/
theorem Holds.at_cut {attrs : Nat → Attr} {before rest : List Attr} (h : Holds attrs (before ++ rest))
    (k : Nat) : attrs (before.length + k) = rest.getD k .zero := by
  rw [h, List.getD_append_right _ _ _ _ (Nat.le_add_right _ _), Nat.add_sub_cancel_left]

/-- A characteristic of a well-formed service has its four attributes. -/
theorem Inv.tabledChrc {s : State} (h : Inv s) {handle j : Nat} {d : ChrcDef}
    (hhandle : handle < s.appGattCount) (hd : (s.appGatts handle).definition[j]? = some d) :
    TabledChrc s handle j d := by
  have hw := h.services handle hhandle
  have hc := hw.chrcs j d hd
  obtain ⟨behind, hcut, hbehind⟩ := attributes_cut handle hd
  have hattrs := hw.attrs
  have hcount := hw.attrCount
  rw [hcut] at hattrs
  rw [hcut, List.length_append, List.length_append, chrcAttrs_length] at hcount
  change _ = declarationIndex handle _ + _ at hcount
  have hat : ∀ k, (s.appGatts handle).attrs (declarationIndex handle _ + k) =
    (chrcAttrs handle j d ++ behind).getD k .zero := hattrs.at_cut
  have hindex := hc.valueAttrIndex
  generalize declarationIndex handle ((s.appGatts handle).definition.take j) = index at *
  have hnext : (s.appGatts handle).attrs (index + 2) =
      if notifies d then cccAttr handle j d else behind.getD 0 .zero := by
    rw [hat]
    unfold chrcAttrs
    split <;> rfl
  refine {
    inside := by rw [hindex]; omega
    properties := hc.properties
    declaration := by rw [hindex, Nat.add_sub_cancel]; exact hat 0
    value := by rw [hindex]; exact hat 1
    valueLen := hc.valueLen
    configured_iff := ?_
    configuration := fun hn => by rw [hindex]; exact hnext.trans (if_pos hn)
    found := fun hn => ?_ }
  · rw [hindex, Nat.add_assoc, hnext, hcount]
    cases hn : notifies d with
    | true => exact ⟨fun _ => rfl, fun _ => ⟨by simp only [if_true]; omega, rfl⟩⟩
    | false =>
      refine ⟨fun hccc => ?_, fun hfalse => absurd hfalse Bool.false_ne_true⟩
      obtain ⟨_, hccc⟩ := hccc
      rw [if_neg Bool.false_ne_true] at hccc
      obtain rfl | ⟨more, rfl⟩ := hbehind
      · cases hccc
      · cases hccc
  · rw [hindex, Nat.add_assoc, hnext, if_pos hn]
    refine appGattFindChrcCcc_valueCcc hhandle ?_
    rw [hw.chrcCount]
    exact (List.getElem?_eq_some_iff.mp hd).1

/-- So the table of a service is the one that its definition asks for. -/
theorem Inv.tabled {s : State} (h : Inv s) {handle : Nat} (hhandle : handle < s.appGattCount) :
    Tabled s handle := by
  have hw := h.services handle hhandle
  refine {
    chrcCount := hw.chrcCount
    attrCount := ?_
    room := hw.attrCount ▸ attributes_fits handle hw.room
    chrcs := fun j d hd => h.tabledChrc hhandle hd }
  rw [hw.attrCount, hw.chrcCount, attributes_length]

/-- The invariant in the words of the arrays, and no registration leaves one. -/
theorem tables_well_formed {config : Config} {s : State} (h : Reachable config s) :
    s.appGattCount ≤ 2 ∧ (∀ handle < s.appGattCount, Tabled s handle) ∧
      ∀ ret offer, (appGattNotifyRegisterNow ret offer s).isSome := by
  have hinv := reachable_inv h
  refine ⟨hinv.count, fun handle hhandle => hinv.tabled hhandle, fun ret offer => ?_⟩
  obtain ⟨code, s', heq, _⟩ := hinv.appGattNotifyRegisterNow ret offer
  rw [heq]
  rfl

theorem one_le_length {α : Type} (a : α) : (1 : UInt8).toNat ≤ [a].length := Nat.le_refl 1

/-- A battery level of one byte, with the default properties. -/
def levelChrc : ChrcDef :=
  { valueUuid := Vector.replicate 16 0x19, valueLen := 1, properties := 0, valuePerm := 0
    cccPerm := 0, value := .to [100] (one_le_length _) }

/-- A service with nothing else. -/
def levelService : ServiceDef :=
  { serviceUuid := Vector.replicate 16 0x0f, chrcCount := 1
    chrcs := .to [levelChrc] (one_le_length _) }

theorem levelService_tabled : ∃ s, Reachable ⟨true, true⟩ s ∧ s.appGattCount = 1 ∧
    (s.appGattCount ≤ 2 ∧ (∀ handle < s.appGattCount, Tabled s handle) ∧
      ∀ ret offer, (appGattNotifyRegisterNow ret offer s).isSome) := by
  have hreachable : Reachable ⟨true, true⟩ _ :=
    .event (.gattRegister 0 (some levelService)) .initial rfl
  exact ⟨_, hreachable, rfl, tables_well_formed hreachable⟩

end Rtbus.Ble
