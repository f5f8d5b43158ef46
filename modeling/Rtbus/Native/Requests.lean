import Rtbus.Native.Pairing

/-!
# The requests of the application

A function of the runtime API that needs an answer fills a request, whose first word is the address
of its result, and passes it to `rtbus_post_wait_result`. `RemoteCall` has a constructor for each of
these functions with its arguments, and `RemoteCall.post` is what it posts.

On the other side a task takes the request apart again. `Task.requested` is the call that a task
finds in a context; it finds the one that was posted (`requested_post`), and the place for the
result is where the function wanted it (`resultAddr_post`).
-/

namespace Rtbus.Native

open Rtbus.Emos

/-- `RTBUS_TASK_DIAGNOSTICS`, `RTBUS_TASK_RUNTIME_SERIAL` and `RTBUS_TASK_RUNTIME_BLE`. -/
def taskDiagnostics : UInt8 := 0
def taskRuntimeSerial : UInt8 := 2
def taskRuntimeBle : UInt8 := 3

/-- The bytes of a word, little-endian. -/
def wordBytes (w : UInt32) : List UInt8 :=
  [w.toUInt8, (w >>> 8).toUInt8, (w >>> 16).toUInt8, (w >>> 24).toUInt8]

/-- The word at an offset. -/
def wordAt (payload : List UInt8) (at_ : Nat) : UInt32 := firstWord (payload.drop at_)

/-- A byte moved into a word that has room for it. -/
theorem shift_or_toNat {w : UInt32} (b : UInt8) (room : w.toNat < 2 ^ 24) :
    (w <<< 8 ||| b.toUInt32).toNat = w.toNat * 2 ^ 8 + b.toNat := by
  have hshift : (w <<< 8).toNat = w.toNat <<< 8 := by
    rw [UInt32.toNat_shiftLeft]
    exact Nat.mod_eq_of_lt (by rw [Nat.shiftLeft_eq]; change w.toNat * 2 ^ 8 < _; omega)
  rw [UInt32.toNat_or, hshift, UInt8.toNat_toUInt32,
    ← Nat.shiftLeft_add_eq_or_of_lt (b := b.toNat) (i := 8) b.toNat_lt, Nat.shiftLeft_eq]

theorem firstWord_wordBytes (w : UInt32) (rest : List UInt8) :
    firstWord (wordBytes w ++ rest) = w := by
  have hw := w.toNat_lt
  have h₀ : w.toUInt8.toNat = w.toNat % 2 ^ 8 := rfl
  have h₁ : (w >>> 8).toUInt8.toNat = w.toNat / 2 ^ 8 % 2 ^ 8 := by
    rw [UInt32.toNat_toUInt8, UInt32.toNat_shiftRight, Nat.shiftRight_eq_div_pow]
    rfl
  have h₂ : (w >>> 16).toUInt8.toNat = w.toNat / 2 ^ 16 % 2 ^ 8 := by
    rw [UInt32.toNat_toUInt8, UInt32.toNat_shiftRight, Nat.shiftRight_eq_div_pow]
    rfl
  have h₃ : (w >>> 24).toUInt8.toNat = w.toNat / 2 ^ 24 % 2 ^ 8 := by
    rw [UInt32.toNat_toUInt8, UInt32.toNat_shiftRight, Nat.shiftRight_eq_div_pow]
    rfl
  have e₃ := shift_or_toNat (w := 0) (w >>> 24).toUInt8 (by decide)
  have e₂ := shift_or_toNat (w >>> 16).toUInt8 (by
    rw [e₃, h₃]
    change 0 * _ + _ < _
    omega)
  have e₁ := shift_or_toNat (w >>> 8).toUInt8 (by
    rw [e₂, e₃, h₃, h₂]
    change (0 * _ + _) * _ + _ < _
    omega)
  have e₀ := shift_or_toNat w.toUInt8 (by
    rw [e₁, e₂, e₃, h₃, h₂, h₁]
    change ((0 * _ + _) * _ + _) * _ + _ < _
    omega)
  refine UInt32.toNat_inj.mp (e₀.trans ?_)
  rw [e₁, e₂, e₃, h₀, h₁, h₂, h₃]
  change (((0 * _ + _) * _ + _) * _ + _) * _ + _ = _
  omega

/-- A call of the runtime API that waits for its result, with its arguments. -/
inductive RemoteCall
  | diagnosticsAdd (lhs rhs : Int32)
  | serialBegin (port baud : UInt32)
  | blePair (conn : UInt32)
  | bleSetSecurity (conn : UInt32) (level : UInt8)
  | bleGapInit (defAddr : UInt32)
  | bleGattServiceRegister (defAddr : UInt32)
  | bleGattValueSet (handle chrc valueLen : UInt8) (valueAddr : UInt32)
  deriving DecidableEq

/-- A post of a request of the given size. -/
def request (taskId : UInt8) (ctxId : UInt32) (req : List UInt8) (size : UInt32)
    (full : req.length = size.toNat) : PostArgs :=
  { taskId := taskId, ctxId := ctxId, payload := some req, payloadLen := size
    readable := by
      intro bytes h
      cases h
      exact Nat.le_of_eq full.symm }

/-- `runtime_diagnostics_add`. -/
def runtimeDiagnosticsAdd (resultAddr : UInt32) (lhs rhs : Int32) : PostArgs :=
  request taskDiagnostics (applicationAppEvt 1)
    (wordBytes resultAddr ++ wordBytes lhs.toUInt32 ++ wordBytes rhs.toUInt32) 12 rfl

/-- `runtime_serial_begin`. -/
def runtimeSerialBegin (resultAddr port baud : UInt32) : PostArgs :=
  request taskRuntimeSerial (applicationAppEvt 1)
    (wordBytes resultAddr ++ wordBytes port ++ wordBytes baud) 12 rfl

/-- `runtime_ble_pair`. -/
def runtimeBlePair (resultAddr conn : UInt32) : PostArgs :=
  request taskRuntimeBle (applicationAppEvt 2) (wordBytes resultAddr ++ wordBytes conn) 8 rfl

/-- `runtime_ble_set_security`. -/
def runtimeBleSetSecurity (resultAddr conn : UInt32) (level : UInt8) : PostArgs :=
  request taskRuntimeBle (applicationAppEvt 3)
    (wordBytes resultAddr ++ wordBytes conn ++ [level, 0, 0, 0]) 12 rfl

/-- `runtime_ble_gap_init`. -/
def runtimeBleGapInit (resultAddr defAddr : UInt32) : PostArgs :=
  request taskRuntimeBle (applicationAppEvt 4) (wordBytes resultAddr ++ wordBytes defAddr) 8 rfl

/-- `runtime_ble_gatt_service_register`. -/
def runtimeBleGattServiceRegister (resultAddr defAddr : UInt32) : PostArgs :=
  request taskRuntimeBle (applicationAppEvt 5) (wordBytes resultAddr ++ wordBytes defAddr) 8 rfl

/-- `runtime_ble_gatt_value_set`. -/
def runtimeBleGattValueSet (resultAddr : UInt32) (handle chrc valueLen : UInt8)
    (valueAddr : UInt32) : PostArgs :=
  request taskRuntimeBle (applicationAppEvt 6)
    (wordBytes resultAddr ++ [handle, chrc, valueLen, 0] ++ wordBytes valueAddr) 12 rfl

/-- What a call posts. -/
def RemoteCall.post (resultAddr : UInt32) : RemoteCall → PostArgs
  | .diagnosticsAdd lhs rhs => runtimeDiagnosticsAdd resultAddr lhs rhs
  | .serialBegin port baud => runtimeSerialBegin resultAddr port baud
  | .blePair conn => runtimeBlePair resultAddr conn
  | .bleSetSecurity conn level => runtimeBleSetSecurity resultAddr conn level
  | .bleGapInit defAddr => runtimeBleGapInit resultAddr defAddr
  | .bleGattServiceRegister defAddr => runtimeBleGattServiceRegister resultAddr defAddr
  | .bleGattValueSet handle chrc valueLen valueAddr =>
    runtimeBleGattValueSet resultAddr handle chrc valueLen valueAddr

/-- The task that serves a call. -/
def RemoteCall.task : RemoteCall → Task
  | .diagnosticsAdd _ _ => .diagnostics
  | .serialBegin _ _ => .runtimeSerial
  | _ => .ble

/-! ## Taking a request apart -/

/-- The request in `rtbus_diagnostics_process`. -/
def diagnosticsRequest (cfg : Config) (ctx : Ctx) : Option RemoteCall :=
  if ctx.id = applicationAppEvt 1 ∧ cfg.diagnosticsService then
    if ctx.payload.length ≠ 12 then none
    else some (.diagnosticsAdd (wordAt ctx.payload 4).toInt32 (wordAt ctx.payload 8).toInt32)
  else none

/-- The request in `rtbus_runtime_serial_process`. -/
def runtimeSerialRequest (ctx : Ctx) : Option RemoteCall :=
  if ctx.id = applicationAppEvt 1 then
    if ctx.payload.length ≠ 12 then none
    else some (.serialBegin (wordAt ctx.payload 4) (wordAt ctx.payload 8))
  else none

/-- The request in `rtbus_ble_process`. -/
def bleRequest (ctx : Ctx) : Option RemoteCall :=
  let payload := ctx.payload
  if ctx.id = applicationAppEvt 2 then
    if payload.length ≠ 8 then none else some (.blePair (wordAt payload 4))
  else if ctx.id = applicationAppEvt 3 then
    if payload.length ≠ 12 then none
    else some (.bleSetSecurity (wordAt payload 4) (payload.getD 8 0))
  else if ctx.id = applicationAppEvt 4 then
    if payload.length ≠ 8 then none else some (.bleGapInit (wordAt payload 4))
  else if ctx.id = applicationAppEvt 5 then
    if payload.length ≠ 8 then none else some (.bleGattServiceRegister (wordAt payload 4))
  else if ctx.id = applicationAppEvt 6 then
    if payload.length ≠ 12 then none
    else
      some (.bleGattValueSet (payload.getD 4 0) (payload.getD 5 0) (payload.getD 6 0)
        (wordAt payload 8))
  else none

/-- The call that a task finds in a context. -/
def Task.requested (cfg : Config) : Task → Ctx → Option RemoteCall
  | .diagnostics, ctx => diagnosticsRequest cfg ctx
  | .runtimeSerial, ctx => runtimeSerialRequest ctx
  | .ble, ctx => bleRequest ctx
  | .cli, _ => none
  | .other _, _ => none

/-- Whether the runtime has been built with the service that a call needs. -/
def RemoteCall.supported (cfg : Config) : RemoteCall → Bool
  | .diagnosticsAdd _ _ => cfg.diagnosticsService
  | _ => true

/-! ## What is posted is what is found -/

theorem wordAt_four (a : UInt32) (rest : List UInt8) :
    wordAt (wordBytes a ++ rest) 4 = firstWord rest := rfl

theorem wordAt_eight (a b : UInt32) (rest : List UInt8) :
    wordAt (wordBytes a ++ (wordBytes b ++ rest)) 8 = firstWord rest := rfl

/-- A word at the end of a request. -/
theorem firstWord_last (w : UInt32) : firstWord (wordBytes w) = w := by
  have h := firstWord_wordBytes w []
  rwa [List.append_nil] at h

variable {cfg : Config}

/-- The task of a call finds the call in what was posted. -/
theorem requested_post {call : RemoteCall} (supported : call.supported cfg = true)
    (resultAddr : UInt32) :
    call.task.requested cfg (call.post resultAddr).ctx = some call := by
  cases call with
  | diagnosticsAdd lhs rhs =>
    have hctx : (runtimeDiagnosticsAdd resultAddr lhs rhs).ctx =
        ⟨taskDiagnostics, applicationAppEvt 1,
          wordBytes resultAddr ++ (wordBytes lhs.toUInt32 ++ wordBytes rhs.toUInt32)⟩ := rfl
    show diagnosticsRequest cfg (runtimeDiagnosticsAdd resultAddr lhs rhs).ctx = _
    unfold diagnosticsRequest
    rw [hctx, if_pos ⟨rfl, supported⟩, if_neg (fun h => h rfl), wordAt_four, firstWord_wordBytes,
      wordAt_eight, firstWord_last]
    rfl
  | serialBegin port baud =>
    have hctx : (runtimeSerialBegin resultAddr port baud).ctx =
        ⟨taskRuntimeSerial, applicationAppEvt 1,
          wordBytes resultAddr ++ (wordBytes port ++ wordBytes baud)⟩ := rfl
    show runtimeSerialRequest (runtimeSerialBegin resultAddr port baud).ctx = _
    unfold runtimeSerialRequest
    rw [hctx, if_pos rfl, if_neg (fun h => h rfl), wordAt_four, firstWord_wordBytes, wordAt_eight,
      firstWord_last]
  | blePair conn =>
    have hctx : (runtimeBlePair resultAddr conn).ctx =
        ⟨taskRuntimeBle, applicationAppEvt 2, wordBytes resultAddr ++ wordBytes conn⟩ := rfl
    show bleRequest (runtimeBlePair resultAddr conn).ctx = _
    unfold bleRequest
    rw [hctx]
    dsimp only
    rw [if_pos rfl, if_neg (fun h => h rfl), wordAt_four, firstWord_last]
  | bleSetSecurity conn level =>
    have hctx : (runtimeBleSetSecurity resultAddr conn level).ctx =
        ⟨taskRuntimeBle, applicationAppEvt 3,
          wordBytes resultAddr ++ (wordBytes conn ++ [level, 0, 0, 0])⟩ := rfl
    show bleRequest (runtimeBleSetSecurity resultAddr conn level).ctx = _
    unfold bleRequest
    rw [hctx]
    dsimp only
    rw [if_neg (by decide), if_pos rfl, if_neg (fun h => h rfl), wordAt_four,
      firstWord_wordBytes]
    rfl
  | bleGapInit defAddr =>
    have hctx : (runtimeBleGapInit resultAddr defAddr).ctx =
        ⟨taskRuntimeBle, applicationAppEvt 4, wordBytes resultAddr ++ wordBytes defAddr⟩ := rfl
    show bleRequest (runtimeBleGapInit resultAddr defAddr).ctx = _
    unfold bleRequest
    rw [hctx]
    dsimp only
    rw [if_neg (by decide), if_neg (by decide), if_pos rfl, if_neg (fun h => h rfl),
      wordAt_four, firstWord_last]
  | bleGattServiceRegister defAddr =>
    have hctx : (runtimeBleGattServiceRegister resultAddr defAddr).ctx =
        ⟨taskRuntimeBle, applicationAppEvt 5, wordBytes resultAddr ++ wordBytes defAddr⟩ := rfl
    show bleRequest (runtimeBleGattServiceRegister resultAddr defAddr).ctx = _
    unfold bleRequest
    rw [hctx]
    dsimp only
    rw [if_neg (by decide), if_neg (by decide), if_neg (by decide), if_pos rfl,
      if_neg (fun h => h rfl), wordAt_four, firstWord_last]
  | bleGattValueSet handle chrc valueLen valueAddr =>
    have hctx : (runtimeBleGattValueSet resultAddr handle chrc valueLen valueAddr).ctx =
        ⟨taskRuntimeBle, applicationAppEvt 6,
          wordBytes resultAddr ++ ([handle, chrc, valueLen, 0] ++ wordBytes valueAddr)⟩ := rfl
    show bleRequest (runtimeBleGattValueSet resultAddr handle chrc valueLen valueAddr).ctx = _
    unfold bleRequest
    rw [hctx]
    dsimp only
    rw [if_neg (by decide), if_neg (by decide), if_neg (by decide), if_neg (by decide),
      if_pos rfl, if_neg (fun h => h rfl)]
    rw [show wordAt _ 8 = firstWord (wordBytes valueAddr) from rfl, firstWord_last]
    rfl

/-- The request of a call begins with the address of its result. -/
theorem payload_post (call : RemoteCall) (resultAddr : UInt32) :
    ∃ rest, (call.post resultAddr).ctx.payload = wordBytes resultAddr ++ rest := by
  cases call <;> exact ⟨_, rfl⟩

/-- A task finds a call in the contexts that it completes. -/
theorem requested_isSome (task : Task) (ctx : Ctx) :
    (task.requested cfg ctx).isSome = (task.resultAddr cfg ctx).isSome := by
  have size : ∀ n : Nat, ∀ call : RemoteCall, ∀ addr : UInt32,
      (if ctx.payload.length ≠ n then none else some call).isSome =
        (if some n = some ctx.payload.length then some addr else none).isSome := by
    intro n call addr
    by_cases h : ctx.payload.length = n
    · rw [if_neg (fun hne => hne h), if_pos (congrArg some h.symm)]
      rfl
    · rw [if_pos h, if_neg (fun heq => h (Option.some.inj heq).symm)]
      rfl
  have unserved : ∀ addr : UInt32,
      (if (none : Option Nat) = some ctx.payload.length then some addr else none).isSome = false :=
    fun addr => by rw [if_neg (fun h => nomatch h)]; rfl
  unfold Task.resultAddr
  cases task with
  | diagnostics =>
    unfold Task.requested diagnosticsRequest Task.requestSize
    dsimp only
    split
    · exact size 12 _ _
    · exact (unserved _).symm
  | runtimeSerial =>
    unfold Task.requested runtimeSerialRequest Task.requestSize
    dsimp only
    split
    · exact size 12 _ _
    · exact (unserved _).symm
  | ble =>
    unfold Task.requested bleRequest Task.requestSize
    dsimp only
    split
    · exact size 8 _ _
    split
    · exact size 12 _ _
    split
    · exact size 8 _ _
    split
    · exact size 8 _ _
    split
    · exact size 12 _ _
    · exact (unserved _).symm
  | cli => exact (unserved _).symm
  | other id => exact (unserved _).symm

/-- The place for the result is the one that the function has given. -/
theorem resultAddr_post {call : RemoteCall} (supported : call.supported cfg = true)
    (resultAddr : UInt32) :
    call.task.resultAddr cfg (call.post resultAddr).ctx = some resultAddr := by
  have hsome := @requested_isSome cfg call.task (call.post resultAddr).ctx
  rw [requested_post supported, Option.isSome_some] at hsome
  obtain ⟨addr, haddr⟩ := Option.isSome_iff_exists.mp hsome.symm
  obtain ⟨rest, hpayload⟩ := payload_post call resultAddr
  rw [haddr, ← resultAddr_eq haddr, hpayload, firstWord_wordBytes]

end Rtbus.Native
