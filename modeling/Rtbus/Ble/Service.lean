import Rtbus.Base.Scan
import Rtbus.Ble.Gap

/-!
# The BLE service

The state of the service and what its task and its callbacks do to it. The codes of the Bluetooth
stack are arguments: one for each call, and for the registration of the pending services one for each
slot. What the stack is told (the notified value, the advertised data, the security level of a
connection) is read from the state and left out, and so are the requests that only pass a security
level on.
-/

namespace Rtbus.Ble

/-- What the service is built with. -/
structure Config where
  /-- `CONFIG_BT_SMP`. -/
  smp : Bool
  /-- `CONFIG_SETTINGS`. -/
  settings : Bool

/-- `struct runtime_ble_gap_def`. -/
structure GapDef where
  securityLevel : UInt8
  flags : UInt8
  advDataCount : UInt8
  scanDataCount : UInt8
  advData : Pointer GapDataDef advDataCount.toNat
  scanData : Pointer GapDataDef scanDataCount.toNat

/-- `struct application_ble_gatt_value_set_req`. -/
structure GattValueSetReq where
  handle : UInt8
  chrc : UInt8
  valueLen : UInt8
  value : Pointer UInt8 valueLen.toNat

/-- The variables of the service. -/
structure State where
  adServiceUuid : Uuid
  adHasServiceUuid : Bool
  appAd : GapTable
  appSd : GapTable
  ready : Bool
  advertising : Bool
  currentConn : UInt32
  gapSecurityLevel : UInt8
  gapFlags : UInt8
  appGatts : Nat → AppGatt
  appGattCount : Nat

/-- The state at boot. -/
def State.initial : State :=
  { adServiceUuid := Vector.replicate 16 0, adHasServiceUuid := false
    appAd := .zero, appSd := .zero
    ready := false, advertising := false, currentConn := 0
    gapSecurityLevel := 0, gapFlags := 0
    appGatts := fun _ => .zero, appGattCount := 0 }

/-- `rtbus_ble_app_gatts[handle] = gatt`. -/
def State.setGatt (s : State) (handle : Nat) (gatt : AppGatt) : State :=
  { s with appGatts := Function.update s.appGatts handle gatt }

/-- `rtbus_ble_app_gatt_find_chrc_ccc`: the characteristic by its slot and its index. -/
def appGattFindChrcCcc (s : State) (ccc : UserData) : Option (Nat × Nat) :=
  Scan.first s.appGattCount fun i =>
    Scan.first (s.appGatts i).chrcCount fun j =>
      if ccc = .valueCcc i j then some (i, j) else none

/-- `rtbus_ble_app_gatt_ccc_changed` and `rtbus_ble_app_gatt_ccc_cfg_write`. -/
def appGattCccChanged (ccc : UserData) (value : UInt16) (s : State) : State :=
  match appGattFindChrcCcc s ccc with
  | none => s
  | some (i, j) =>
    let gatt := s.appGatts i
    let chrc := { gatt.chrcs j with notifyEnabled := value = 1 }
    s.setGatt i { gatt with chrcs := Function.update gatt.chrcs j chrc }

/-- `rtbus_ble_app_gatt_register_ready`. -/
def appGattRegisterReady (ret : Int) (gatt : AppGatt) : Int × AppGatt :=
  if gatt.registered then (0, gatt)
  else if ret ≠ 0 then (ret, gatt)
  else (0, { gatt with registered := true })

/-- The loop of `rtbus_ble_app_gatt_register_pending` over `n` slots from `i` on. -/
def appGattRegisterPendingFrom (rets : Nat → Int) : Nat → Nat → State → Int × State
  | 0, _, s => (0, s)
  | n + 1, i, s =>
    let registered := appGattRegisterReady (rets i) (s.appGatts i)
    let s := s.setGatt i registered.2
    if registered.1 ≠ 0 then (registered.1, s) else appGattRegisterPendingFrom rets n (i + 1) s

/-- `rtbus_ble_app_gatt_register_pending`. -/
def appGattRegisterPending (rets : Nat → Int) (s : State) : Int × State :=
  appGattRegisterPendingFrom rets s.appGattCount 0 s

/-- `rtbus_ble_ad_sync_service_uuid`. -/
def adSyncServiceUuid (s : State) : State :=
  if s.appGattCount = 0 then
    { s with adHasServiceUuid := false, adServiceUuid := Vector.replicate 16 0 }
  else { s with adServiceUuid := (s.appGatts 0).serviceUuid, adHasServiceUuid := true }

/-- `rtbus_ble_app_gatt_reset`. A service that the stack does not let go of is only logged. -/
def appGattReset (s : State) : State :=
  adSyncServiceUuid { s with appGattCount := 0, appGatts := fun _ => .zero }

/-- `rtbus_ble_reset_app_state`. -/
def resetAppState (s : State) : State :=
  appGattReset { s with
    advertising := false, currentConn := 0, gapSecurityLevel := 0, gapFlags := 0
    appAd := .zero, appSd := .zero }

/-- `rtbus_ble_app_gatt_notify_register_now`: the code or the handle, and the state. There is no
result when the building leaves an array. -/
def appGattNotifyRegisterNow (ret : Int) (offer : Option ServiceDef) (s : State) :
    Option (Int × State) :=
  match offer with
  | none => some (-EINVAL, s)
  | some d =>
    if d.chrcCount = 0 ∨ d.chrcCount.toNat > appGattChrcMax ∨ d.chrcs.target = none then
      some (-EINVAL, s)
    else if s.appGattCount ≥ appGattMax then some (-ENOMEM, s)
    else
      match appGattBuild s.appGattCount d with
      | .error .outOfBounds => none
      | .error (.code ret) => some (ret, s.setGatt s.appGattCount .zero)
      | .ok gatt =>
        let handle := s.appGattCount
        let staged := adSyncServiceUuid { s.setGatt handle gatt with appGattCount := handle + 1 }
        if staged.ready then
          let registered := appGattRegisterReady ret (staged.appGatts handle)
          let staged := staged.setGatt handle registered.2
          if registered.1 ≠ 0 then some (registered.1, staged) else some (handle, staged)
        else some (handle, staged)

/-- `rtbus_ble_app_gatt_value_set_now`, with the answers of `bt_gatt_is_subscribed` and
`bt_gatt_notify`. -/
def appGattValueSetNow (isSubscribed : Bool) (notify : Int) (req : Option GattValueSetReq)
    (s : State) : Int × State :=
  match req with
  | none => (-EINVAL, s)
  | some req =>
    if req.handle.toNat ≥ s.appGattCount then (-EINVAL, s)
    else
      let gatt := s.appGatts req.handle.toNat
      if ¬ gatt.prepared ∨ req.chrc.toNat ≥ gatt.chrcCount then (-EINVAL, s)
      else
        match appGattValueCopy (gatt.chrcs req.chrc.toNat) req.value with
        | .error ret => (ret, s)
        | .ok chrc =>
          let asked : Bool := gatt.registered && chrc.hasCcc && s.currentConn ≠ 0
          let chrc := { chrc with
            notifyEnabled := if asked then isSubscribed else chrc.notifyEnabled }
          let s := s.setGatt req.handle.toNat
            { gatt with chrcs := Function.update gatt.chrcs req.chrc.toNat chrc }
          if asked && isSubscribed && notify ≠ 0 then (notify, s) else (0, s)

/-- `rtbus_ble_gap_init_now`. -/
def gapInitNow (gapDef : Option GapDef) (s : State) : Int × State :=
  match gapDef with
  | none => (-EINVAL, s)
  | some d =>
    let ad := gapDataCopy d.advData s.appAd
    if ad.1 ≠ 0 then (ad.1, { s with appAd := ad.2 })
    else
      let sd := gapDataCopy d.scanData s.appSd
      if sd.1 ≠ 0 then (sd.1, { s with appAd := ad.2, appSd := sd.2 })
      else (0, { s with
        appAd := ad.2, appSd := sd.2, gapSecurityLevel := d.securityLevel, gapFlags := d.flags })

/-- `rtbus_ble_connected`. -/
def connected (err : UInt8) (conn : UInt32) (s : State) : State :=
  { s with advertising := false, currentConn := if err ≠ 0 then 0 else conn }

/-- `rtbus_ble_disconnected`. -/
def disconnected (conn : UInt32) (s : State) : State :=
  if s.currentConn = conn then { s with currentConn := 0 } else s

/-- `rtbus_ble_recycled`. -/
def recycled (s : State) : State := { s with currentConn := 0 }

/-- The codes of the steps of `rtbus_ble_adv_start_now`. -/
structure Codes where
  /-- `bt_gatt_service_register` for the slots before the stack is enabled. -/
  registerPending : Nat → Int
  /-- `bt_enable`. -/
  enable : Int
  /-- `bt_conn_auth_info_cb_register`. -/
  authInfo : Int
  /-- `settings_load`. -/
  settingsLoad : Int
  /-- `bt_gatt_service_register` for the slots behind that. -/
  registerReady : Nat → Int
  /-- `bt_le_adv_start`. -/
  advStart : Int

/-- Codes with which every step succeeds. -/
def Codes.zero : Codes :=
  { registerPending := fun _ => 0, enable := 0, authInfo := 0, settingsLoad := 0
    registerReady := fun _ => 0, advStart := 0 }

/-- `rtbus_ble_register_auth_info_callbacks`. -/
def registerAuthInfoCallbacks (ret : Int) : Int := if ret = -EALREADY then 0 else ret

/-- The first half of `rtbus_ble_adv_start_now`: the stack is brought up unless it is ready. -/
def advBringUp (config : Config) (codes : Codes) (s : State) : Int × State :=
  if s.ready then (0, s)
  else
    let pending := appGattRegisterPending codes.registerPending s
    if pending.1 ≠ 0 then pending
    else if codes.enable ≠ 0 then (codes.enable, pending.2)
    else if config.smp ∧ registerAuthInfoCallbacks codes.authInfo ≠ 0 then
      (registerAuthInfoCallbacks codes.authInfo, pending.2)
    else if config.settings ∧ codes.settingsLoad ≠ 0 then (codes.settingsLoad, pending.2)
    else (0, { pending.2 with ready := true })

/-- The second half, with a stack that is ready. -/
def advBegin (codes : Codes) (s : State) : Int × State :=
  let pending := appGattRegisterPending codes.registerReady s
  if pending.1 ≠ 0 then pending
  else
    let synced := adSyncServiceUuid pending.2
    if synced.advertising then (0, synced)
    else if codes.advStart ≠ 0 then (codes.advStart, synced)
    else (0, { synced with advertising := true })

/-- `rtbus_ble_adv_start_now`. -/
def advStartNow (config : Config) (codes : Codes) (s : State) : Int × State :=
  let up := advBringUp config codes s
  if up.1 ≠ 0 then up else advBegin codes up.2

/-- What happens to the service. -/
inductive Event
  | init
  | advStart (codes : Codes)
  | gapInit (gapDef : Option GapDef)
  | gattRegister (ret : Int) (offer : Option ServiceDef)
  | gattValueSet (isSubscribed : Bool) (notify : Int) (req : Option GattValueSetReq)
  | cccChanged (ccc : UserData) (value : UInt16)
  | connected (err : UInt8) (conn : UInt32)
  | disconnected (conn : UInt32)
  | recycled

/-- `rtbus_ble_process` and the callbacks. -/
def process (config : Config) : Event → State → Option State
  | .init, s => some (resetAppState s)
  | .advStart codes, s => some (advStartNow config codes s).2
  | .gapInit gapDef, s => some (gapInitNow gapDef s).2
  | .gattRegister ret offer, s => (appGattNotifyRegisterNow ret offer s).map Prod.snd
  | .gattValueSet isSubscribed notify req, s => some (appGattValueSetNow isSubscribed notify req s).2
  | .cccChanged ccc value, s => some (appGattCccChanged ccc value s)
  | .connected err conn, s => some (connected err conn s)
  | .disconnected conn, s => some (disconnected conn s)
  | .recycled, s => some (recycled s)

/-- The states of the service after any events. -/
inductive Reachable (config : Config) : State → Prop
  | initial : Reachable config .initial
  | event {s s' : State} (event : Event) : Reachable config s → process config event s = some s' →
      Reachable config s'

end Rtbus.Ble
