import Mathlib.Logic.Function.Basic

/-!
# The GATT tables of the BLE service

An application registers services with up to four characteristics each. A service is built in place,
in one of two slots: every characteristic has a declaration, a value, and if it notifies, a client
configuration behind them. The Bluetooth stack gets the table, and from then on refers to a
characteristic by the address in `user_data`.

The arrays are functions, and a write outside one of them stops the program (`Halt.outOfBounds`).
`definition` is history: what the characteristics were built from. The UUID objects that attributes
point to, the managed part of a configuration and the handles that the stack assigns are left out.
-/

namespace Rtbus.Ble

/-- `EINVAL`. -/
def EINVAL : Int := 22
/-- `ENOMEM`. -/
def ENOMEM : Int := 12
/-- `EMSGSIZE`. -/
def EMSGSIZE : Int := 122
/-- `EALREADY`. -/
def EALREADY : Int := 120

/-- `RUNTIME_BLE_GATT_VALUE_MAX`. -/
def gattValueMax : Nat := 32
/-- `RTBUS_BLE_APP_GATT_MAX`. -/
def appGattMax : Nat := 2
/-- `RTBUS_BLE_APP_GATT_CHRC_MAX`. -/
def appGattChrcMax : Nat := 4
/-- `RTBUS_BLE_APP_GATT_ATTR_MAX`. -/
def appGattAttrMax : Nat := 1 + appGattChrcMax * 3

/-- `BT_GATT_CHRC_READ`. -/
def chrcRead : UInt8 := 0x02
/-- `BT_GATT_CHRC_NOTIFY`. -/
def chrcNotify : UInt8 := 0x10
/-- `BT_GATT_PERM_READ`. -/
def permRead : UInt8 := 0x01
/-- `BT_GATT_PERM_WRITE`. -/
def permWrite : UInt8 := 0x02

/-- 128 bits of a UUID. -/
abbrev Uuid := Vector UInt8 16

/-- A pointer that is `NULL` or leads to at least so many elements. -/
structure Pointer (α : Type) (count : Nat) where
  target : Option (List α)
  readable : ∀ elements, target = some elements → count ≤ elements.length

/-- `NULL`. -/
def Pointer.null {α : Type} {count : Nat} : Pointer α count :=
  ⟨none, fun elements h => absurd h.symm (Option.some_ne_none elements)⟩

/-- The address of an array. -/
def Pointer.to {α : Type} {count : Nat} (array : List α) (h : count ≤ array.length) :
    Pointer α count :=
  ⟨some array, fun _ heq => Option.some.inj heq ▸ h⟩

/-- The elements behind a pointer. -/
def Pointer.elements {α : Type} {count : Nat} (p : Pointer α count) : List α :=
  (p.target.getD []).take count

/-- `struct runtime_ble_gatt_chrc_def`. -/
structure ChrcDef where
  valueUuid : Uuid
  valueLen : UInt8
  properties : UInt8
  valuePerm : UInt8
  cccPerm : UInt8
  value : Pointer UInt8 valueLen.toNat

/-- `struct runtime_ble_gatt_service_def`. -/
structure ServiceDef where
  serviceUuid : Uuid
  chrcCount : UInt8
  chrcs : Pointer ChrcDef chrcCount.toNat

/-- What `user_data` of an attribute points to. -/
inductive UserData
  | null
  /-- `&gatt->service_uuid.uuid`. -/
  | serviceUuid (handle : Nat)
  /-- `&chrc->value_chrc`. -/
  | valueChrc (handle chrc : Nat)
  /-- `chrc`. -/
  | chrc (handle chrc : Nat)
  /-- `&chrc->value_ccc`. -/
  | valueCcc (handle chrc : Nat)
  deriving DecidableEq

/-- The UUID of an attribute. -/
inductive AttrUuid
  | null
  | gattPrimary
  | gattChrc
  | gattCcc
  /-- `&chrc->value_uuid.uuid`. -/
  | value (handle chrc : Nat)
  deriving DecidableEq

/-- The callbacks of an attribute. -/
inductive AttrAccess
  | null
  | readService
  | readChrc
  | appGattRead
  | ccc
  deriving DecidableEq

/-- `struct bt_gatt_attr`. Only a configuration can be written. -/
structure Attr where
  uuid : AttrUuid
  access : AttrAccess
  userData : UserData
  perm : UInt8
  deriving DecidableEq

/-- A cleared attribute. -/
def Attr.zero : Attr := { uuid := .null, access := .null, userData := .null, perm := 0 }

/-- `struct rtbus_ble_app_gatt_chrc`. -/
structure AppGattChrc where
  notifyEnabled : Bool
  hasCcc : Bool
  valueAttrIndex : Nat
  cccAttrIndex : Nat
  valueLen : Nat
  valueUuid : Uuid
  properties : UInt8
  value : List UInt8

/-- A cleared characteristic. -/
def AppGattChrc.zero : AppGattChrc :=
  { notifyEnabled := false, hasCcc := false, valueAttrIndex := 0, cccAttrIndex := 0, valueLen := 0
    valueUuid := Vector.replicate 16 0, properties := 0, value := List.replicate gattValueMax 0 }

/-- `struct rtbus_ble_app_gatt`. -/
structure AppGatt where
  prepared : Bool
  registered : Bool
  attrCount : Nat
  chrcCount : Nat
  serviceUuid : Uuid
  chrcs : Nat → AppGattChrc
  attrs : Nat → Attr
  serviceAttrCount : Nat
  definition : List ChrcDef

/-- A cleared service. -/
def AppGatt.zero : AppGatt :=
  { prepared := false, registered := false, attrCount := 0, chrcCount := 0
    serviceUuid := Vector.replicate 16 0, chrcs := fun _ => .zero, attrs := fun _ => .zero
    serviceAttrCount := 0, definition := [] }

/-- Why a service is not built. -/
inductive Halt
  | outOfBounds
  | code (ret : Int)

/-- A step of the building. -/
abbrev Build := Except Halt

/-- `gatt->attrs[index] = attr`. -/
def AppGatt.setAttr (gatt : AppGatt) (index : Nat) (attr : Attr) : Build AppGatt :=
  if index < appGattAttrMax then .ok { gatt with attrs := Function.update gatt.attrs index attr }
  else .error .outOfBounds

/-- `gatt->chrcs[index] = chrc`. -/
def AppGatt.setChrc (gatt : AppGatt) (index : Nat) (chrc : AppGattChrc) : Build AppGatt :=
  if index < appGattChrcMax then .ok { gatt with chrcs := Function.update gatt.chrcs index chrc }
  else .error .outOfBounds

/-- `rtbus_ble_app_gatt_value_copy`: the characteristic, or the code. -/
def appGattValueCopy (chrc : AppGattChrc) {valueLen : UInt8} (value : Pointer UInt8 valueLen.toNat) :
    Except Int AppGattChrc :=
  if valueLen.toNat > gattValueMax then .error (-EMSGSIZE)
  else if valueLen ≠ 0 ∧ value.target = none then .error (-EINVAL)
  else .ok { chrc with
    value := value.elements ++ chrc.value.drop value.elements.length
    valueLen := valueLen.toNat }

/-- `rtbus_ble_app_gatt_properties`. -/
def appGattProperties (d : ChrcDef) : UInt8 :=
  if d.properties ≠ 0 then d.properties else chrcRead ||| chrcNotify

/-- `rtbus_ble_app_gatt_value_perm`. -/
def appGattValuePerm (d : ChrcDef) : UInt8 := if d.valuePerm ≠ 0 then d.valuePerm else permRead

/-- `rtbus_ble_app_gatt_ccc_perm`. -/
def appGattCccPerm (d : ChrcDef) : UInt8 :=
  if d.cccPerm ≠ 0 then d.cccPerm else permRead ||| permWrite

/-- The properties have `BT_GATT_CHRC_NOTIFY`. -/
def notifies (d : ChrcDef) : Bool := appGattProperties d &&& chrcNotify ≠ 0

/-- The declaration of a characteristic. -/
def declarationAttr (handle i : Nat) : Attr :=
  { uuid := .gattChrc, access := .readChrc, userData := .valueChrc handle i, perm := permRead }

/-- Its value. -/
def valueAttr (handle i : Nat) (d : ChrcDef) : Attr :=
  { uuid := .value handle i, access := .appGattRead, userData := .chrc handle i
    perm := appGattValuePerm d }

/-- Its configuration. -/
def cccAttr (handle i : Nat) (d : ChrcDef) : Attr :=
  { uuid := .gattCcc, access := .ccc, userData := .valueCcc handle i, perm := appGattCccPerm d }

/-- The first attribute of a service. -/
def serviceAttr (handle : Nat) : Attr :=
  { uuid := .gattPrimary, access := .readService, userData := .serviceUuid handle, perm := permRead }

/-- `rtbus_ble_app_gatt_cccd_define`. -/
def appGattCccdDefine (gatt : AppGatt) (handle i : Nat) (d : ChrcDef) (attrIndex : Nat) :
    Build AppGatt := do
  let gatt ← gatt.setAttr attrIndex (cccAttr handle i d)
  gatt.setChrc i { gatt.chrcs i with cccAttrIndex := attrIndex, hasCcc := true }

/-- The body of the loop of `rtbus_ble_app_gatt_notify_register_now` for the characteristic `i`. -/
def appGattAddChrc (handle i : Nat) (d : ChrcDef) (attrIndex : Nat) (gatt : AppGatt) :
    Build (AppGatt × Nat) := do
  if (attrIndex + 2) % 256 > appGattAttrMax then throw (.code (-ENOMEM))
  match appGattValueCopy { gatt.chrcs i with valueUuid := d.valueUuid } d.value with
  | .error ret => throw (.code ret)
  | .ok chrc =>
    let gatt ← gatt.setChrc i { chrc with
      properties := appGattProperties d
      valueAttrIndex := attrIndex + 1 }
    let gatt ← gatt.setAttr attrIndex (declarationAttr handle i)
    let gatt ← gatt.setAttr (attrIndex + 1) (valueAttr handle i d)
    if notifies d then
      if attrIndex + 2 ≥ appGattAttrMax then throw (.code (-ENOMEM))
      let gatt ← appGattCccdDefine gatt handle i d (attrIndex + 2)
      return (gatt, attrIndex + 3)
    else return (gatt, attrIndex + 2)

/-- The loop of `rtbus_ble_app_gatt_notify_register_now` from the characteristic `i` on. -/
def appGattAddChrcs (handle : Nat) : List ChrcDef → Nat → Nat → AppGatt → Build (AppGatt × Nat)
  | [], _, attrIndex, gatt => .ok (gatt, attrIndex)
  | d :: rest, i, attrIndex, gatt => do
    let added ← appGattAddChrc handle i d attrIndex gatt
    appGattAddChrcs handle rest (i + 1) added.2 added.1

/-- What `rtbus_ble_app_gatt_notify_register_now` makes of a cleared slot. -/
def appGattBuild (handle : Nat) (d : ServiceDef) : Build AppGatt := do
  let gatt ← { AppGatt.zero with serviceUuid := d.serviceUuid }.setAttr 0 (serviceAttr handle)
  let built ← appGattAddChrcs handle d.chrcs.elements 0 1 gatt
  return { built.1 with
    chrcCount := d.chrcCount.toNat
    attrCount := built.2
    serviceAttrCount := built.2
    prepared := true
    definition := d.chrcs.elements }

end Rtbus.Ble
