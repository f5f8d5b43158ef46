import Rtbus.Base.Run
import Rtbus.Ble.Values
import Rtbus.Native.Service

/-!
# Connections

The service keeps one connection, as the address of an object of the Bluetooth stack, which belongs
to the stack again once the connection has ended. The application gets that address with an event,
and names it when it asks for security.

`LinkStep` is the service with the promises of the stack: a connection begins with an object that is
in no use, the other callbacks name one that is connected. Then every call of the service names a
connected one too (`calls_name_live`). With at most one connection at a time, as the stack is
configured, an application that follows the events knows the connection of the service
(`view_is_current`), if no event is lost on its way to it.

Of the errors of the stack, four say that the keys of a bond do not work any more; with these, and
only then, the bond of the peer is deleted.
-/

namespace Rtbus.Ble

open Rtbus.Native (RuntimeEvent)

/-- `ENOTCONN`. -/
def ENOTCONN : Int := 128
/-- `ENOTSUP`. -/
def ENOTSUP : Int := 134
/-- `BT_SECURITY_L2`. -/
def btSecurityL2 : UInt8 := 2

/-- `enum bt_security_err`. -/
inductive SecurityErr
  | success
  | authFail
  | pinOrKeyMissing
  | oobNotAvailable
  | authRequirement
  | pairNotSupported
  | pairNotAllowed
  | invalidParam
  | keyRejected
  | unspecified
  deriving DecidableEq

/-- The code of an error. -/
def SecurityErr.code : SecurityErr → UInt8
  | .success => 0
  | .authFail => 1
  | .pinOrKeyMissing => 2
  | .oobNotAvailable => 3
  | .authRequirement => 4
  | .pairNotSupported => 5
  | .pairNotAllowed => 6
  | .invalidParam => 7
  | .keyRejected => 8
  | .unspecified => 9

/-- `rtbus_ble_security_err_stale_bond`. -/
def securityErrStaleBond (err : SecurityErr) : Bool :=
  err = .authFail || err = .pinOrKeyMissing || err = .authRequirement || err = .keyRejected

/-- A call of the stack that names a connection. `unpair` is `bt_unpair` for its peer. -/
inductive StackCall
  | gatt (call : GattCall)
  | setSecurity (conn : UInt32) (level : UInt8)
  | unpair (conn : UInt32)
  deriving DecidableEq

/-- The connection that a call names. -/
def StackCall.conn : StackCall → UInt32
  | .gatt (.isSubscribed conn _) => conn
  | .gatt (.notify conn _ _) => conn
  | .setSecurity conn _ => conn
  | .unpair conn => conn

/-- What happens to the service and its connections: what its task does, the callbacks of the stack,
and the two requests about security. -/
inductive LinkEvent
  | task (event : Event)
  | connected (err : UInt8) (conn : UInt32)
  | disconnected (conn : UInt32) (reason : UInt8)
  | recycled
  | securityChanged (conn : UInt32) (level : UInt8) (err : SecurityErr)
  | pairingFailed (conn : UInt32) (reason : SecurityErr)
  | setSecurity (conn : UInt32) (level : UInt8)
  | pair (conn : UInt32)

/-- What the task of the service handles, or the stack asks of it about attributes. -/
def Event.ofTask : Event → Bool
  | .connected _ _ | .disconnected _ | .recycled => false
  | _ => true

/-! ## What the service tells the stack -/

/-- `rtbus_ble_set_security_now`: the result, and its call of the stack. -/
def setSecurityNow (config : Config) (ret : Int) (connHandle : UInt32) (level : UInt8) (s : State) :
    Int × List StackCall :=
  if config.smp then
    if connHandle = 0 ∨ s.currentConn = 0 ∨ connHandle ≠ s.currentConn then (-ENOTCONN, [])
    else (ret, [.setSecurity connHandle level])
  else (-ENOTSUP, [])

/-- `rtbus_ble_pair_now`. -/
def pairNow (config : Config) (ret : Int) (connHandle : UInt32) (s : State) :
    Int × List StackCall :=
  setSecurityNow config ret connHandle btSecurityL2 s

/-- The call of the stack in `rtbus_ble_connected`. -/
def connectedCalls (err : UInt8) (conn : UInt32) (s : State) : List StackCall :=
  if err ≠ 0 then []
  else if s.gapSecurityLevel ≠ 0 then [.setSecurity conn s.gapSecurityLevel] else []

/-- `rtbus_ble_forget_stale_bond`. -/
def forgetStaleBond (conn : UInt32) (err : SecurityErr) : List StackCall :=
  if securityErrStaleBond err then [.unpair conn] else []

/-- The calls of the stack in `rtbus_ble_security_changed`. -/
def securityChangedCalls (conn : UInt32) (err : SecurityErr) : List StackCall :=
  if err ≠ .success then forgetStaleBond conn err else []

/-- The calls of the stack that name a connection. -/
def LinkEvent.calls (config : Config) (s : State) : LinkEvent → List StackCall
  | .task (.gattValueSet isSubscribed _ req) =>
    (appGattValueSetCalls isSubscribed req s).map .gatt
  | .connected err conn => connectedCalls err conn s
  | .securityChanged conn _ err => if config.smp then securityChangedCalls conn err else []
  | .pairingFailed conn reason => if config.smp then forgetStaleBond conn reason else []
  | .setSecurity conn level => (setSecurityNow config 0 conn level s).2
  | .pair conn => (pairNow config 0 conn s).2
  | _ => []

/-- What happens to the variables of the service. -/
def LinkEvent.state (config : Config) (s : State) : LinkEvent → Option State
  | .task event => process config event s
  | .connected err conn => some (Ble.connected err conn s)
  | .disconnected conn _ => some (Ble.disconnected conn s)
  | .recycled => some (Ble.recycled s)
  | _ => some s

/-! ## What it tells the application -/

/-- `rtbus_ble_store_u32_le`. -/
def storeU32Le (value : UInt32) : List UInt8 :=
  [value.toUInt8, (value >>> 8).toUInt8, (value >>> 16).toUInt8, (value >>> 24).toUInt8]

/-- An event of the group `RUNTIME_EVENT_GROUP_BLE`. -/
def bleEvent (tag : UInt16) (value : List UInt8) : RuntimeEvent :=
  { group := 1, tag := tag, value := value }

/-- The events that the callbacks emit. -/
def LinkEvent.emitted (config : Config) : LinkEvent → List RuntimeEvent
  | .connected err conn => if err ≠ 0 then [bleEvent 5 [err]] else [bleEvent 1 (storeU32Le conn)]
  | .disconnected _ reason => [bleEvent 2 [reason]]
  | .recycled => [bleEvent 3 []]
  | .securityChanged _ level err =>
    if config.smp then [bleEvent 4 [level, err.code]] else []
  | _ => []

/-- The value of an event of the group with a tag, if it has the right length. -/
def bleValue (tag : UInt16) (len : Nat) (event : RuntimeEvent) : Option (List UInt8) :=
  if event.group ≠ 1 ∨ event.tag ≠ tag ∨ event.value.length ≠ len then none else some event.value

/-- `runtime_event_is_ble_connected`. -/
def runtimeEventIsBleConnected (event : RuntimeEvent) : Option UInt32 :=
  (bleValue 1 4 event).map fun (value : List UInt8) =>
    (value.getD 0 0).toUInt32 ||| (value.getD 1 0).toUInt32 <<< 8 |||
      (value.getD 2 0).toUInt32 <<< 16 ||| (value.getD 3 0).toUInt32 <<< 24

/-- `runtime_event_is_ble_disconnected`. -/
def runtimeEventIsBleDisconnected (event : RuntimeEvent) : Option UInt8 :=
  (bleValue 2 1 event).map (·.getD 0 0)

/-- `runtime_event_is_ble_recycled`. -/
def runtimeEventIsBleRecycled (event : RuntimeEvent) : Bool := (bleValue 3 0 event).isSome

/-- `runtime_event_is_ble_security_changed`. -/
def runtimeEventIsBleSecurityChanged (event : RuntimeEvent) : Option (UInt8 × UInt8) :=
  (bleValue 4 2 event).map fun value => (value.getD 0 0, value.getD 1 0)

/-- `runtime_event_is_ble_connect_failed`. -/
def runtimeEventIsBleConnectFailed (event : RuntimeEvent) : Option UInt8 :=
  (bleValue 5 1 event).map (·.getD 0 0)

/-- The connection that an application knows which follows the events: the last one that it was told
of, until it is told that there is none. -/
def observe (view : UInt32) (event : RuntimeEvent) : UInt32 :=
  match runtimeEventIsBleConnected event with
  | some conn => conn
  | none =>
    if (runtimeEventIsBleDisconnected event).isSome || runtimeEventIsBleRecycled event ||
        (runtimeEventIsBleConnectFailed event).isSome then 0
    else view

/-! ## The service and its connections -/

/-- The service with the connections of the stack, and what the application knows. -/
structure Link where
  state : State
  live : List UInt32
  view : UInt32

/-- At boot. -/
def Link.boot : Link := { state := .initial, live := [], view := 0 }

/-- What an event does to the connections. -/
def LinkEvent.live (live : List UInt32) : LinkEvent → List UInt32
  | .connected err conn => if err ≠ 0 then live else conn :: live
  | .disconnected conn _ => live.erase conn
  | _ => live

/-- What the application knows before it is told of an event: nothing, if it has just been
started. -/
def LinkEvent.known (view : UInt32) : LinkEvent → UInt32
  | .task .init => 0
  | _ => view

/-- An event happens. -/
def Link.step (config : Config) (e : LinkEvent) (l : Link) : Option Link :=
  (e.state config l.state).map fun s =>
    { state := s, live := e.live l.live, view := (e.emitted config).foldl observe (e.known l.view) }

/-- What the stack promises: a new connection has an object of its own, and callbacks are about
connections that exist. -/
def LinkEvent.Promised (live : List UInt32) : LinkEvent → Prop
  | .task event => event.ofTask = true
  | .connected err conn => err = 0 → conn ≠ 0 ∧ conn ∉ live
  | .disconnected conn _ | .securityChanged conn _ _ | .pairingFailed conn _ => conn ∈ live
  | _ => True

/-- A step with a stack that keeps its promises. -/
def LinkStep (config : Config) (l : Link) (e : LinkEvent) (l' : Link) : Prop :=
  l.step config e = some l' ∧ e.Promised l.live

/-- A step with at most one connection at a time. -/
def SingleStep (config : Config) (l : Link) (e : LinkEvent) (l' : Link) : Prop :=
  LinkStep config l e l' ∧ ∀ conn, e = .connected 0 conn → l.live = []

/-! ## Events come through -/

/-- The low byte of a word. -/
theorem toUInt32_toUInt8 (w : UInt32) : w.toUInt8.toUInt32 = w &&& 255 := by
  refine UInt32.toNat_inj.mp ?_
  rw [UInt8.toNat_toUInt32, UInt32.toNat_toUInt8, UInt32.toNat_and]
  exact (Nat.and_two_pow_sub_one_eq_mod w.toNat 8).symm

/-- A word is put together from its bytes. -/
theorem word_of_bytes (w : UInt32) :
    w.toUInt8.toUInt32 ||| (w >>> 8).toUInt8.toUInt32 <<< 8 |||
      (w >>> 16).toUInt8.toUInt32 <<< 16 ||| (w >>> 24).toUInt8.toUInt32 <<< 24 = w := by
  simp only [toUInt32_toUInt8]
  refine UInt32.toBitVec_inj.mp (BitVec.eq_of_getLsbD_eq fun i hi => ?_)
  have mask : ∀ k < 32, (255#32).getLsbD k = decide (k < 8) := by decide
  have m₀ := mask i hi
  have m₁ := mask (i - 8) (by omega)
  have m₂ := mask (i - 16) (by omega)
  have m₃ := mask (i - 24) (by omega)
  simp [m₀, m₁, m₂, m₃]
  grind

/-- The address of a connection comes through. -/
theorem isBleConnected_emitted (conn : UInt32) :
    runtimeEventIsBleConnected (bleEvent 1 (storeU32Le conn)) = some conn := by
  have hvalue : bleValue 1 4 (bleEvent 1 (storeU32Le conn)) = some (storeU32Le conn) := rfl
  unfold runtimeEventIsBleConnected
  rw [hvalue]
  exact congrArg some (word_of_bytes conn)

/-- A connected event tells its connection. -/
theorem observe_connected (view conn : UInt32) :
    observe view (bleEvent 1 (storeU32Le conn)) = conn := by
  unfold observe
  rw [isBleConnected_emitted]

/-- Any other event of the group is about no connection, or leaves it. -/
theorem observe_other (view : UInt32) {tag : UInt16} (value : List UInt8) (other : tag ≠ 1) :
    observe view (bleEvent tag value) =
      if (runtimeEventIsBleDisconnected (bleEvent tag value)).isSome ||
          runtimeEventIsBleRecycled (bleEvent tag value) ||
          (runtimeEventIsBleConnectFailed (bleEvent tag value)).isSome then 0
      else view := by
  have hnone : runtimeEventIsBleConnected (bleEvent tag value) = none := by
    unfold runtimeEventIsBleConnected bleValue
    rw [if_pos (.inr (.inl other))]
    rfl
  unfold observe
  rw [hnone]

/-! ## The connection of the service -/

/-- Registering services leaves the connection. -/
theorem registerPendingFrom_conn (rets : Nat → Int) (n i : Nat) (s : State) :
    (appGattRegisterPendingFrom rets n i s).2.currentConn = s.currentConn := by
  induction n generalizing i s with
  | zero => rfl
  | succ n ih =>
    unfold appGattRegisterPendingFrom
    dsimp only
    split
    · rfl
    · exact ih _ _

/-- So does writing the advertising data. -/
theorem adSync_conn (s : State) : (adSyncServiceUuid s).currentConn = s.currentConn := by
  unfold adSyncServiceUuid
  split <;> rfl

/-- So does a request to advertise. -/
theorem advStartNow_conn (config : Config) (codes : Codes) (s : State) :
    (advStartNow config codes s).2.currentConn = s.currentConn := by
  have begin_ : ∀ s, (advBegin codes s).2.currentConn = s.currentConn := by
    intro s
    have pending := registerPendingFrom_conn codes.registerReady s.appGattCount 0 s
    have synced := (adSync_conn (appGattRegisterPending codes.registerReady s).2).trans pending
    unfold advBegin
    dsimp only
    split
    · exact pending
    · split
      · exact synced
      · split <;> exact synced
  have up : (advBringUp config codes s).2.currentConn = s.currentConn := by
    have pending := registerPendingFrom_conn codes.registerPending s.appGattCount 0 s
    unfold advBringUp
    split
    · rfl
    · dsimp only
      split
      · exact pending
      · split
        · exact pending
        · split
          · exact pending
          · split <;> exact pending
  unfold advStartNow
  dsimp only
  split
  · exact up
  · exact (begin_ _).trans up

/-- So does a request to register a service. -/
theorem gattRegister_conn {ret code : Int} {offer : Option ServiceDef} {s s' : State}
    (step : appGattNotifyRegisterNow ret offer s = some (code, s')) :
    s'.currentConn = s.currentConn := by
  unfold appGattNotifyRegisterNow at step
  split at step
  · cases step
    rfl
  · split at step
    · cases step
      rfl
    · split at step
      · cases step
        rfl
      · split at step
        · cases step
        · cases step
          rfl
        · dsimp only at step
          split at step
          · split at step <;> cases step <;> exact adSync_conn _
          · cases step
            exact adSync_conn _

/-- So does one to set a value. -/
theorem valueSet_conn (isSubscribed : Bool) (notify : Int) (req : Option GattValueSetReq)
    (s : State) :
    (appGattValueSetNow isSubscribed notify req s).2.currentConn = s.currentConn := by
  unfold appGattValueSetNow
  split
  · rfl
  · split
    · rfl
    · dsimp only
      split
      · rfl
      · split
        · rfl
        · split <;> rfl

/-- The task of the service forgets the connection when the application is started, and does not
touch it otherwise. -/
theorem task_conn {config : Config} {event : Event} {s s' : State} (task : event.ofTask = true)
    (step : process config event s = some s') :
    (event = .init ∧ s'.currentConn = 0) ∨ (event ≠ .init ∧ s'.currentConn = s.currentConn) := by
  cases event with
  | init =>
    cases step
    exact .inl ⟨rfl, adSync_conn _⟩
  | advStart codes =>
    cases step
    exact .inr ⟨nofun, advStartNow_conn config codes s⟩
  | gapInit gapDef =>
    cases step
    refine .inr ⟨nofun, ?_⟩
    unfold gapInitNow
    split
    · rfl
    · dsimp only
      split
      · rfl
      · split <;> rfl
  | gattRegister ret offer =>
    obtain ⟨⟨code, s''⟩, hres, rfl⟩ := Option.map_eq_some_iff.mp step
    exact .inr ⟨nofun, gattRegister_conn hres⟩
  | gattValueSet isSubscribed notify req =>
    cases step
    exact .inr ⟨nofun, valueSet_conn isSubscribed notify req s⟩
  | cccChanged ccc value =>
    cases step
    refine .inr ⟨nofun, ?_⟩
    unfold appGattCccChanged
    split <;> rfl
  | connected err conn => cases task
  | disconnected conn => cases task
  | recycled => cases task

/-! ## Calls name a connection -/

/-- The connection of the service is one of the stack. -/
structure Link.Held (l : Link) : Prop where
  proper : ∀ conn ∈ l.live, conn ≠ 0
  current : l.state.currentConn ≠ 0 → l.state.currentConn ∈ l.live

/-- One event keeps it: a connection that is held exists. -/
theorem Link.Held.step {config : Config} {l l' : Link} {e : LinkEvent} (h : l.Held)
    (step : LinkStep config l e l') : l'.Held := by
  obtain ⟨step, promised⟩ := step
  obtain ⟨s, hstate, rfl⟩ := Option.map_eq_some_iff.mp step
  cases e with
  | task event =>
    refine ⟨h.proper, fun hne => ?_⟩
    rcases task_conn promised hstate with ⟨_, hzero⟩ | ⟨_, hsame⟩
    · exact absurd hzero hne
    · change s.currentConn ≠ 0 at hne
      change s.currentConn ∈ l.live
      rw [hsame] at hne ⊢
      exact h.current hne
  | connected err conn =>
    cases hstate
    change _ → _ at promised
    by_cases herr : err = 0
    · subst herr
      refine ⟨fun c hc => ?_, fun _ => List.mem_cons_self⟩
      rcases List.mem_cons.mp hc with rfl | hc
      · exact (promised rfl).1
      · exact h.proper c hc
    · have hlive : (LinkEvent.connected err conn).live l.live = l.live := if_pos herr
      refine ⟨fun c hc => h.proper c (hlive ▸ hc), fun hne => absurd ?_ hne⟩
      exact if_pos herr
  | disconnected conn reason =>
    cases hstate
    refine ⟨fun c hc => h.proper c (List.mem_of_mem_erase hc), fun hne => ?_⟩
    change (Ble.disconnected conn l.state).currentConn ∈ l.live.erase conn
    change (Ble.disconnected conn l.state).currentConn ≠ 0 at hne
    unfold Ble.disconnected at hne ⊢
    split
    · rename_i heq
      rw [if_pos heq] at hne
      exact absurd rfl hne
    · rename_i hother
      rw [if_neg hother] at hne
      exact (List.mem_erase_of_ne hother).mpr (h.current hne)
  | recycled =>
    cases hstate
    exact ⟨h.proper, fun hne => absurd rfl hne⟩
  | _ =>
    cases hstate
    exact ⟨h.proper, h.current⟩

/-- At boot none is held. -/
theorem Link.Held.boot : Link.boot.Held := ⟨fun _ h => (nomatch h), fun h => absurd rfl h⟩

/-- The calls about attributes name the connection of the service. -/
theorem valueSetCalls_conn {isSubscribed : Bool} {req : Option GattValueSetReq} {s : State}
    {call : GattCall} (h : call ∈ appGattValueSetCalls isSubscribed req s) :
    (StackCall.gatt call).conn = s.currentConn ∧ s.currentConn ≠ 0 := by
  unfold appGattValueSetCalls at h
  split at h
  · cases h
  · split at h
    · cases h
    · dsimp only at h
      split at h
      · cases h
      · split at h
        · cases h
        · split at h
          · rename_i htold
            have hne := of_decide_eq_true (Bool.and_eq_true_iff.mp htold).2
            rcases List.mem_cons.mp h with rfl | h
            · exact ⟨rfl, hne⟩
            · split at h
              · rw [List.mem_singleton.mp h]
                exact ⟨rfl, hne⟩
              · cases h
          · cases h

/-- A request for security reaches the stack with the current connection only. -/
theorem setSecurityNow_call {config : Config} {ret : Int} {connHandle : UInt32} {level : UInt8}
    {s : State} {call : StackCall} (h : call ∈ (setSecurityNow config ret connHandle level s).2) :
    call = .setSecurity connHandle level ∧ connHandle = s.currentConn ∧ connHandle ≠ 0 := by
  unfold setSecurityNow at h
  split at h
  · split at h
    · cases h
    · rename_i hor
      obtain ⟨hne, hor⟩ := not_or.mp hor
      exact ⟨List.mem_singleton.mp h, not_not.mp (not_or.mp hor).2, hne⟩
  · cases h

/-- A bond is deleted only for an error that says that it is stale. -/
theorem forgetStaleBond_call {conn : UInt32} {err : SecurityErr} {call : StackCall}
    (h : call ∈ forgetStaleBond conn err) :
    call = .unpair conn ∧ securityErrStaleBond err = true := by
  unfold forgetStaleBond at h
  split at h
  · rename_i hstale
    exact ⟨List.mem_singleton.mp h, hstale⟩
  · cases h

/-- In every run with a stack that keeps its promises, every call of the stack names a connection
that exists, and a bond is deleted only for the peer of a connection whose security has failed with
an error that says that the bond is stale. -/
theorem calls_name_live {config : Config} {l l' : Link} {e : LinkEvent}
    (h : Run.Reachable (· = Link.boot) (LinkStep config) l) (step : LinkStep config l e l') :
    ∀ call ∈ e.calls config l.state, call.conn ≠ 0 ∧ call.conn ∈ l'.live ∧
      ∀ conn, call = .unpair conn → ∃ err, securityErrStaleBond err = true ∧
        (e = .pairingFailed conn err ∨ ∃ level, e = .securityChanged conn level err) := by
  have held : l.Held := Run.Reachable.invariant (fun _ hl => by rw [hl]; exact .boot)
    (fun _ _ _ hl hstep => hl.step hstep) h
  obtain ⟨step, promised⟩ := step
  obtain ⟨s, hstate, rfl⟩ := Option.map_eq_some_iff.mp step
  intro call hcall
  dsimp only
  cases e with
  | task event =>
    cases event with
    | gattValueSet isSubscribed notify req =>
      obtain ⟨gattCall, hmem, rfl⟩ := List.mem_map.mp hcall
      obtain ⟨hconn, hne⟩ := valueSetCalls_conn hmem
      rw [hconn]
      exact ⟨hne, held.current hne, nofun⟩
    | _ => cases hcall
  | connected err conn =>
    change call ∈ connectedCalls err conn l.state at hcall
    change _ → _ at promised
    unfold connectedCalls at hcall
    split at hcall
    · cases hcall
    · rename_i herr
      have herr := not_not.mp herr
      split at hcall
      · rw [List.mem_singleton.mp hcall]
        subst herr
        exact ⟨(promised rfl).1, List.mem_cons_self, nofun⟩
      · cases hcall
  | securityChanged conn level err =>
    change call ∈ (if config.smp then securityChangedCalls conn err else []) at hcall
    split at hcall
    · unfold securityChangedCalls at hcall
      split at hcall
      · obtain ⟨rfl, hstale⟩ := forgetStaleBond_call hcall
        refine ⟨held.proper conn promised, promised, fun conn' heq => ?_⟩
        cases heq
        exact ⟨err, hstale, .inr ⟨level, rfl⟩⟩
      · cases hcall
    · cases hcall
  | pairingFailed conn reason =>
    change call ∈ (if config.smp then forgetStaleBond conn reason else []) at hcall
    split at hcall
    · obtain ⟨rfl, hstale⟩ := forgetStaleBond_call hcall
      refine ⟨held.proper conn promised, promised, fun conn' heq => ?_⟩
      cases heq
      exact ⟨reason, hstale, .inl rfl⟩
    · cases hcall
  | setSecurity conn level =>
    obtain ⟨rfl, hcurrent, hne⟩ := setSecurityNow_call hcall
    refine ⟨hne, ?_, nofun⟩
    show conn ∈ l.live
    rw [hcurrent]
    exact held.current (hcurrent ▸ hne)
  | pair conn =>
    obtain ⟨rfl, hcurrent, hne⟩ := setSecurityNow_call hcall
    refine ⟨hne, ?_, nofun⟩
    show conn ∈ l.live
    rw [hcurrent]
    exact held.current (hcurrent ▸ hne)
  | disconnected conn reason => cases hcall
  | recycled => cases hcall

/-! ## What the application knows -/

/-- With one connection at a time the application knows the one of the service. -/
structure Link.Agrees (l : Link) : Prop where
  held : l.Held
  single : ∀ conn ∈ l.live, l.live = [conn]
  view : l.view = l.state.currentConn

/-- One event with one connection at a time keeps both views the same. -/
theorem Link.Agrees.step {config : Config} {l l' : Link} {e : LinkEvent} (h : l.Agrees)
    (step : SingleStep config l e l') : l'.Agrees := by
  obtain ⟨step, alone⟩ := step
  have held := h.held.step step
  obtain ⟨step, promised⟩ := step
  obtain ⟨s, hstate, rfl⟩ := Option.map_eq_some_iff.mp step
  cases e with
  | task event =>
    refine ⟨held, h.single, ?_⟩
    show (LinkEvent.task event).known l.view = s.currentConn
    rcases task_conn promised hstate with ⟨rfl, hzero⟩ | ⟨hother, hsame⟩
    · exact hzero.symm
    · rw [hsame, ← h.view]
      cases event with
      | init => exact absurd rfl hother
      | _ => rfl
  | connected err conn =>
    cases hstate
    by_cases herr : err = 0
    · subst herr
      have hempty := alone conn rfl
      refine ⟨held, fun c hc => ?_, observe_connected l.view conn⟩
      change c ∈ conn :: l.live at hc
      show conn :: l.live = [c]
      rw [hempty] at hc ⊢
      rw [List.mem_singleton.mp hc]
    · have hlive : (LinkEvent.connected err conn).live l.live = l.live := if_pos herr
      refine ⟨held, fun c hc => ?_, ?_⟩
      · change c ∈ (LinkEvent.connected err conn).live l.live at hc
        show (LinkEvent.connected err conn).live l.live = [c]
        rw [hlive] at hc ⊢
        exact h.single c hc
      · show ((LinkEvent.connected err conn).emitted config).foldl observe l.view =
          if err ≠ 0 then 0 else conn
        rw [show (LinkEvent.connected err conn).emitted config = [bleEvent 5 [err]] from if_pos herr,
          if_pos herr]
        exact @observe_other l.view 5 [err] (by decide)
  | disconnected conn reason =>
    cases hstate
    have hsingle := h.single conn promised
    refine ⟨held, fun c hc => ?_, ?_⟩
    · change c ∈ l.live.erase conn at hc
      rw [hsingle, List.erase_cons_head] at hc
      cases hc
    · show observe l.view (bleEvent 2 [reason]) = (Ble.disconnected conn l.state).currentConn
      rw [show observe l.view (bleEvent 2 [reason]) = 0 from
        @observe_other l.view 2 [reason] (by decide)]
      unfold Ble.disconnected
      split
      · rfl
      · rename_i hother
        by_contra hne
        have hcurrent := h.held.current fun hzero => hne hzero.symm
        rw [hsingle, List.mem_singleton] at hcurrent
        exact hother hcurrent
  | recycled =>
    cases hstate
    exact ⟨held, h.single, @observe_other l.view 3 [] (by decide)⟩
  | securityChanged conn level err =>
    cases hstate
    refine ⟨held, h.single, ?_⟩
    show ((LinkEvent.securityChanged conn level err).emitted config).foldl observe l.view = _
    unfold LinkEvent.emitted
    dsimp only
    split
    · exact (@observe_other l.view 4 [level, err.code] (by decide)).trans h.view
    · exact h.view
  | _ =>
    cases hstate
    exact ⟨held, h.single, h.view⟩

/-- At boot neither knows a connection. -/
theorem Link.Agrees.boot : Link.boot.Agrees := ⟨.boot, fun _ h => (nomatch h), rfl⟩

/-- In every run with at most one connection at a time, the connection that an application knows
which follows the events is the one of the service: it is a connection that exists, asking for
security with it reaches the stack, and asking with any other address is refused. -/
theorem view_is_current {config : Config} {l : Link}
    (h : Run.Reachable (· = Link.boot) (SingleStep config) l) :
    l.view = l.state.currentConn ∧ (l.view ≠ 0 → l.live = [l.view]) ∧
      (config.smp = true → ∀ ret conn level,
        setSecurityNow config ret conn level l.state =
          if conn = l.view ∧ l.view ≠ 0 then (ret, [.setSecurity conn level])
          else (-ENOTCONN, [])) := by
  have agrees : l.Agrees := Run.Reachable.invariant (fun _ hl => by rw [hl]; exact .boot)
    (fun _ _ _ hl hstep => hl.step hstep) h
  refine ⟨agrees.view, fun hne => ?_, fun hsmp ret conn level => ?_⟩
  · rw [agrees.view] at hne ⊢
    exact agrees.single _ (agrees.held.current hne)
  · unfold setSecurityNow
    rw [if_pos hsmp, agrees.view]
    by_cases hconn : conn = l.state.currentConn ∧ l.state.currentConn ≠ 0
    · obtain ⟨rfl, hne⟩ := hconn
      have hnor : ¬ (l.state.currentConn = 0 ∨ l.state.currentConn = 0 ∨
          l.state.currentConn ≠ l.state.currentConn) := by
        rintro (hzero | hzero | hother)
        · exact hne hzero
        · exact hne hzero
        · exact hother rfl
      rw [if_neg hnor, if_pos ⟨rfl, hne⟩]
    · rw [if_neg hconn, if_pos]
      by_contra hnor
      obtain ⟨_, hnor⟩ := not_or.mp hnor
      obtain ⟨hne, hsame⟩ := not_or.mp hnor
      exact hconn ⟨not_not.mp hsame, hne⟩

/-! ## A run -/

/-- The application asks for security level 2 on a connection, the peer has connected. -/
def demandingGap : GapDef :=
  { securityLevel := 2, flags := 0, advDataCount := 0, scanDataCount := 0
    advData := .null, scanData := .null }

/-- A connection, as it is asked for. -/
theorem asked_connection : ∃ l : Link,
    Run.Reachable (· = Link.boot) (SingleStep ⟨true, true⟩) l ∧ l.view = 0x20 ∧
      setSecurityNow ⟨true, true⟩ 0 0x20 2 l.state = (0, [.setSecurity 0x20 2]) := by
  have reach : Run.Reachable (· = Link.boot) (SingleStep ⟨true, true⟩) _ :=
    .step (.step (.start rfl) (a := .task (.gapInit (some demandingGap)))
      ⟨⟨rfl, rfl⟩, fun _ h => by cases h⟩) (a := .connected 0 0x20)
      ⟨⟨rfl, fun _ => ⟨by decide, List.not_mem_nil⟩⟩, fun _ _ => rfl⟩
  obtain ⟨_, _, hasked⟩ := view_is_current reach
  exact ⟨_, reach, rfl, (hasked rfl 0 0x20 2).trans (if_pos (by decide))⟩

/-- A stale bond is deleted while its peer is connected. -/
theorem stale_bond_deleted : ∃ l l' : Link,
    Run.Reachable (· = Link.boot) (LinkStep ⟨true, true⟩) l ∧
      LinkStep ⟨true, true⟩ l (.pairingFailed 0x20 .pinOrKeyMissing) l' ∧
      (StackCall.unpair 0x20).conn ∈ l'.live := by
  obtain ⟨l, reach, hlive⟩ : ∃ l : Link,
      Run.Reachable (· = Link.boot) (LinkStep ⟨true, true⟩) l ∧ l.live = [0x20] :=
    ⟨_, .step (.start rfl) (a := .connected 0 0x20)
      ⟨rfl, fun _ => ⟨by decide, List.not_mem_nil⟩⟩, rfl⟩
  have promised : (LinkEvent.pairingFailed 0x20 .pinOrKeyMissing).Promised l.live := by
    rw [hlive]
    exact List.mem_singleton.mpr rfl
  have step : LinkStep ⟨true, true⟩ l (.pairingFailed 0x20 .pinOrKeyMissing) _ := ⟨rfl, promised⟩
  obtain ⟨_, hnamed, _⟩ := calls_name_live reach step (.unpair 0x20) (List.mem_singleton.mpr rfl)
  exact ⟨l, _, reach, step, hnamed⟩

end Rtbus.Ble
