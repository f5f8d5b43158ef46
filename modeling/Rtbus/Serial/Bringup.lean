import Rtbus.Base.Run
import Rtbus.Serial.Transparency

/-!
# Bringing the serial ports up

At boot `rtbus_runtime_serial_start` prepares every port for reception: it sets the callback of the
UART driver and enables its receive interrupt. `rtbus_runtime_serial_begin` configures a port for a
baud rate, with the receive interrupt switched off meanwhile, and prepares it if that has not
succeeded yet. The driver may fail in every call.

`Ports` is the service and the calls that its ports' drivers have got, from which `rxOn` and
`callback` tell what a driver is left with. In every run the interrupt of a port is on between the
events as soon as the port is ready, whatever has failed, and it is off while a UART is configured
(`receiver_kept`).
-/

namespace Rtbus.Serial

/-- `struct uart_config`. -/
structure UartConfig where
  baudrate : UInt32
  parity : UInt8
  stopBits : UInt8
  dataBits : UInt8
  flowCtrl : UInt8
  deriving DecidableEq

/-- A call of the driver of a port, with what it has returned: `uart_irq_callback_user_data_set` for
`rtbus_runtime_serial_cdc_callback` or `rtbus_runtime_serial_irq_callback`, `uart_irq_rx_enable`,
`uart_irq_rx_disable`, `uart_config_get` and `uart_configure`. -/
inductive DriverCall
  | callbackSet (cdc : Bool) (ret : Ret)
  | rxEnable
  | rxDisable
  | configGet (ret : Ret)
  | configure (config : UartConfig) (ret : Ret)
  deriving DecidableEq

/-- What the driver of a port answers in an event. -/
structure Answers where
  configGet : Except Errno UartConfig
  configure : Ret
  callbackSet : Ret

/-- The receive interrupt after some calls, from how it was. -/
def rxOnFrom : Bool → List DriverCall → Bool
  | on, [] => on
  | _, .rxEnable :: calls => rxOnFrom true calls
  | _, .rxDisable :: calls => rxOnFrom false calls
  | on, _ :: calls => rxOnFrom on calls

/-- The receive interrupt after some calls. -/
def rxOn (calls : List DriverCall) : Bool := rxOnFrom false calls

/-- The callback after some calls: whether it is the one for CDC ports. -/
def callback (calls : List DriverCall) : Option Bool :=
  calls.foldl (fun set call => match call with
    | .callbackSet cdc .ok => some cdc
    | _ => set) none

/-- The configurations that are tried while the receive interrupt is on. -/
def configuredOn : Bool → List DriverCall → Bool
  | _, [] => false
  | on, .configure _ _ :: calls => on || configuredOn on calls
  | on, call :: calls => configuredOn (rxOnFrom on [call]) calls

namespace SerialPort

variable {n : Nat} (port : SerialPort n)

/-- `rtbus_runtime_serial_prepare_rx`, with the calls it makes. -/
def prepareRx (answers : Answers) : Ret × SerialPort n × List DriverCall :=
  if port.rxReady then (.ok, port, [])
  else if ¬ port.hasDev ∨ ¬ port.deviceIsReady then (.err .ENODEV, port, [])
  else
    match answers.callbackSet with
    | .err e => (.err e, port, [.callbackSet port.isCdc (.err e)])
    | .ok =>
      (.ok, { port with rxReady := true, rxReady_of_prepared := fun _ => rfl },
        [.callbackSet port.isCdc .ok, .rxEnable])

/-- The configuration that `rtbus_runtime_serial_configure` asks for. `UART_CFG_STOP_BITS_1` is 1
and `UART_CFG_DATA_BITS_8` is 3. -/
def configFor (answers : Answers) (baud : UInt32) : UartConfig :=
  match answers.configGet with
  | .error _ => { baudrate := baud, parity := 0, stopBits := 1, dataBits := 3, flowCtrl := 0 }
  | .ok config => { config with baudrate := baud }

/-- `rtbus_runtime_serial_configure`. -/
def configure (answers : Answers) (baud : UInt32) : Ret × List DriverCall :=
  if baud = 0 then (.err .EINVAL, [])
  else if ¬ port.hasDev ∨ ¬ port.deviceIsReady then (.err .ENODEV, [])
  else
    let got : Ret := match answers.configGet with
      | .error e => .err e
      | .ok _ => .ok
    let rxWasEnabled := !port.isCdc && port.rxReady
    let calls := .configGet got :: (if rxWasEnabled then [.rxDisable] else []) ++
      [.configure (configFor answers baud) answers.configure] ++
      (if rxWasEnabled then [.rxEnable] else [])
    if answers.configure = .err .ENOSYS ∨ answers.configure = .err .ENOTSUP then
      (if port.isCdc then .ok else answers.configure, calls)
    else (answers.configure, calls)

/-- A port that is ready is prepared. -/
def setPrepared (ready : port.rxReady = true) : SerialPort n :=
  { port with prepared := true, rxReady_of_prepared := fun _ => ready }

/-- A port whose preparation has succeeded is ready. -/
theorem rxReady_of_prepareRx {answers : Answers} (h : (port.prepareRx answers).1 = .ok) :
    (port.prepareRx answers).2.1.rxReady = true := by
  unfold prepareRx at h ⊢
  split
  · assumption
  · rename_i hready
    rw [if_neg hready] at h
    split
    · rename_i hdown
      rw [if_pos hdown] at h
      cases h
    · rename_i hup
      rw [if_neg hup] at h
      split
      · rename_i hset
        rw [hset] at h
        cases h
      · rfl

/-- `rtbus_runtime_serial_start_port` on a port of the table. -/
def startPort (answers : Answers) : Ret × SerialPort n × List DriverCall :=
  if ¬ port.hasDev then (.ok, port, [])
  else
    let done := port.prepareRx answers
    if ok : done.1 = .ok then
      (.ok, done.2.1.setPrepared (port.rxReady_of_prepareRx ok), done.2.2)
    else done

/-- `rtbus_runtime_serial_begin` on a port of the table. -/
def begin (answers : Answers) (baud : UInt32) : Ret × SerialPort n × List DriverCall :=
  let configured := port.configure answers baud
  if configured.1 ≠ .ok then (configured.1, port, configured.2)
  else if port.prepared then (.ok, port, configured.2)
  else
    let done := port.prepareRx answers
    if ok : done.1 = .ok then
      (.ok, done.2.1.setPrepared (port.rxReady_of_prepareRx ok), configured.2 ++ done.2.2)
    else (done.1, done.2.1, configured.2 ++ done.2.2)

end SerialPort

/-- The service, and history: the calls that the driver of each port has got. -/
structure Ports (n : Nat) where
  service : Service n
  calls : Fin 2 → List DriverCall

/-- What happens: the `INIT` event, with the answers of both drivers, a request of the application,
a receive interrupt, a read, or a flush. -/
inductive PortsEvent
  | init (answers : Fin 2 → Answers)
  | begin (port baud : UInt32) (answers : Answers)
  | fifo (id : Fin 2) (chunks : List (List UInt8))
  | read (port : Nat) (pollIn : List UInt8) (size : Nat)
  | flush (id : Fin 2)

namespace Ports

variable {n : Nat} (m : Ports n)

/-- A port with what an event makes of it and asks of its driver. -/
def setPort (id : Fin 2) (port : SerialPort n) (calls : List DriverCall) : Ports n where
  service := m.service.setPort id port
  calls := Function.update m.calls id (m.calls id ++ calls)

/-- A turn of the loop of `rtbus_runtime_serial_start`, which goes on whatever it returns. -/
def startPort (id : Fin 2) (answers : Answers) : Ports n :=
  let done := (m.service.ports id).startPort answers
  m.setPort id done.2.1 done.2.2

/-- `rtbus_runtime_serial_start`. -/
def start (answers : Fin 2 → Answers) : Ports n :=
  (m.startPort port0 (answers port0)).startPort port1 (answers port1)

/-- `rtbus_runtime_serial_begin`. -/
def begin (port baud : UInt32) (answers : Answers) : Ret × Ports n :=
  if h : port.toNat < 2 then
    let id : Fin 2 := ⟨port.toNat, h⟩
    let done := (m.service.ports id).begin answers baud
    (done.1, m.setPort id done.2.1 done.2.2)
  else (.err .EINVAL, m)

/-- What an event does. A receive interrupt comes while it is on. -/
def step : PortsEvent → Ports n → Option (Ports n)
  | .init answers, m => some (m.start answers)
  | .begin port baud answers, m => some (m.begin port baud answers).2
  | .fifo id chunks, m =>
    if rxOn (m.calls id) ∧ (callback (m.calls id)).isSome then
      some { m with service := (m.service.drainFifo id chunks).2 }
    else none
  | .read port pollIn size, m => some { m with service := (m.service.read port pollIn size).2 }
  | .flush id, m => some { m with service := m.service.flushRx id }

/-- A step with an event. -/
def Step (m : Ports n) (e : PortsEvent) (m' : Ports n) : Prop := step e m = some m'

/-- The statics after boot: no port is ready, and no driver has been called. -/
def Start (m : Ports n) : Prop :=
  ∀ id, (m.service.ports id).rxReady = false ∧ (m.service.ports id).queue = [] ∧ m.calls id = []

end Ports

/-! ## What the calls leave the driver with -/

theorem err_ne_ok (e : Errno) : Ret.err e ≠ .ok := fun h => by cases h

/-- Calls that switch the interrupt, in two stretches. -/
theorem rxOnFrom_append (on : Bool) (xs ys : List DriverCall) :
    rxOnFrom on (xs ++ ys) = rxOnFrom (rxOnFrom on xs) ys := by
  induction xs generalizing on with
  | nil => rfl
  | cons call calls ih => cases call <;> exact ih _

/-- A configuration with the interrupt on is in one of two stretches. -/
theorem configuredOn_append (on : Bool) (xs ys : List DriverCall) :
    configuredOn on (xs ++ ys) = (configuredOn on xs || configuredOn (rxOnFrom on xs) ys) := by
  induction xs generalizing on with
  | nil => rfl
  | cons call calls ih =>
    cases call with
    | configure config ret =>
      show (on || configuredOn on (calls ++ ys)) = (on || configuredOn on calls || _)
      rw [ih, Bool.or_assoc]
      rfl
    | _ => exact ih _

/-- The callback that is set behind two stretches of calls. -/
theorem callback_append (xs ys : List DriverCall) :
    callback (xs ++ ys) = ys.foldl (fun set call => match call with
      | .callbackSet cdc .ok => some cdc
      | _ => set) (callback xs) :=
  List.foldl_append

/-- A port and its driver: the interrupt is on and the callback set once the port is ready, a UART
is configured with the interrupt off, that of a CDC port is never switched off, a port without a
device that is ready makes no call, and one that is not ready has received nothing. -/
structure Tuned {n : Nat} (port : SerialPort n) (calls : List DriverCall) : Prop where
  enabled : rxOn calls = port.rxReady
  callback : callback calls = if port.rxReady then some port.isCdc else none
  quiet : port.isCdc = false → configuredOn false calls = false
  cdc : port.isCdc = true → .rxDisable ∉ calls
  down : port.hasDev = false ∨ port.deviceIsReady = false → calls = []
  waiting : port.rxReady = false → port.queue = []

/-- A port that differs in its ring. -/
structure SameFlags {n : Nat} (port port' : SerialPort n) : Prop where
  isCdc : port'.isCdc = port.isCdc
  rxReady : port'.rxReady = port.rxReady
  hasDev : port'.hasDev = port.hasDev
  deviceIsReady : port'.deviceIsReady = port.deviceIsReady

section Port

variable {n : Nat} {port port' : SerialPort n} {calls : List DriverCall}

theorem SameFlags.refl (port : SerialPort n) : SameFlags port port := ⟨rfl, rfl, rfl, rfl⟩

/-- Flags that stay twice have stayed. -/
theorem SameFlags.trans {port'' : SerialPort n} (h : SameFlags port port')
    (h' : SameFlags port' port'') : SameFlags port port'' :=
  ⟨h'.isCdc.trans h.isCdc, h'.rxReady.trans h.rxReady, h'.hasDev.trans h.hasDev,
    h'.deviceIsReady.trans h.deviceIsReady⟩

/-- What receives or reads bytes leaves the port in tune. -/
theorem Tuned.of_same (h : Tuned port calls) (same : SameFlags port port')
    (waiting : port.rxReady = false → port'.queue = []) : Tuned port' calls where
  enabled := same.rxReady ▸ h.enabled
  callback := by
    rw [same.rxReady, same.isCdc]
    exact h.callback
  quiet := same.isCdc ▸ h.quiet
  cdc := same.isCdc ▸ h.cdc
  down := same.hasDev ▸ same.deviceIsReady ▸ h.down
  waiting := same.rxReady ▸ waiting

/-- So does marking it as prepared once its receiver is ready. -/
theorem Tuned.setPrepared (h : Tuned port calls) (ready : port.rxReady = true) :
    Tuned (port.setPrepared ready) calls :=
  h.of_same ⟨rfl, rfl, rfl, rfl⟩ h.waiting

/-- The device of the port is there and ready. -/
def SerialPort.up (port : SerialPort n) : Prop := port.hasDev = true ∧ port.deviceIsReady = true

/-- A device that is missing or not ready is not up. -/
theorem not_up_of_down (down : ¬ port.hasDev ∨ ¬ port.deviceIsReady) : ¬ port.up :=
  fun up => down.elim (fun h => h up.1) fun h => h up.2

/-- Any other is. -/
theorem up_of_not_down (up : ¬ (¬ port.hasDev ∨ ¬ port.deviceIsReady)) : port.up :=
  ⟨not_not.mp fun h => up (.inl h), not_not.mp fun h => up (.inr h)⟩

/-- A port that is up may make calls. -/
theorem down_of_up {P : Prop} (up : port.up)
    (down : port.hasDev = false ∨ port.deviceIsReady = false) : P := by
  obtain ⟨hdev, hready⟩ := up
  rw [hdev, hready] at down
  exact absurd down (not_or.mpr ⟨Bool.false_ne_true.symm, Bool.false_ne_true.symm⟩)

/-- What the preparation does. -/
theorem prepareRx_spec (h : Tuned port calls) (answers : Answers) :
    Tuned (port.prepareRx answers).2.1 (calls ++ (port.prepareRx answers).2.2) ∧
      (port.prepareRx answers).2.1.queue = port.queue ∧
      (port.prepareRx answers).2.1.prepared = port.prepared ∧
      ((port.prepareRx answers).1 = .ok ↔
        port.rxReady = true ∨ (port.up ∧ answers.callbackSet = .ok)) := by
  unfold SerialPort.prepareRx
  split
  · rename_i ready
    rw [List.append_nil]
    exact ⟨h, rfl, rfl, fun _ => .inl ready, fun _ => rfl⟩
  · rename_i waiting
    split
    · rename_i down
      rw [List.append_nil]
      refine ⟨h, rfl, rfl, fun hret => absurd hret (err_ne_ok _), fun hok => ?_⟩
      exact hok.elim (fun ready => absurd ready waiting) fun hup =>
        absurd hup.1 (not_up_of_down down)
    · rename_i up
      have up := up_of_not_down up
      have hready : port.rxReady = false := Bool.eq_false_of_not_eq_true waiting
      have hoff : rxOnFrom false calls = false := h.enabled.trans hready
      have hset := h.callback
      rw [if_neg waiting] at hset
      split
      · rename_i e hfailed
        refine ⟨⟨?_, ?_, fun huart => ?_, fun hcdc => ?_, down_of_up up, h.waiting⟩, rfl, rfl,
          fun hret => absurd hret (err_ne_ok _), fun hok => ?_⟩
        · show rxOnFrom false _ = _
          rw [rxOnFrom_append, hoff]
          exact hready.symm
        · rw [callback_append, hset, if_neg waiting]
          rfl
        · rw [configuredOn_append, h.quiet huart]
          rfl
        · refine fun hmem => (List.mem_append.mp hmem).elim (h.cdc hcdc) fun hmem => ?_
          cases List.mem_singleton.mp hmem
        · exact hok.elim (fun ready => absurd ready waiting) fun hup =>
            absurd (hfailed.symm.trans hup.2) (err_ne_ok _)
      · rename_i hok
        refine ⟨⟨?_, ?_, fun huart => ?_, fun hcdc => ?_, down_of_up up, fun hwait => ?_⟩, rfl, rfl,
          fun _ => .inr ⟨up, hok⟩, fun _ => rfl⟩
        · show rxOnFrom false _ = true
          rw [rxOnFrom_append]
          rfl
        · rw [callback_append, hset]
          rfl
        · rw [configuredOn_append, h.quiet huart]
          rfl
        · refine fun hmem => (List.mem_append.mp hmem).elim (h.cdc hcdc) fun hmem => ?_
          rcases List.mem_cons.mp hmem with heq | hmem
          · cases heq
          · cases List.mem_singleton.mp hmem
        · cases hwait

/-- The calls of a configuration: a UART whose receive interrupt is on has it off meanwhile. -/
def configureCalls (listening : Bool) (got : Ret) (config : UartConfig) (ret : Ret) :
    List DriverCall :=
  .configGet got :: (if listening then [.rxDisable] else []) ++ [.configure config ret] ++
    (if listening then [.rxEnable] else [])

/-- Configuring switches the interrupt off and on around itself, where it is on. -/
theorem Tuned.configured (h : Tuned port calls) (up : port.up) (got : Ret) (config : UartConfig)
    (ret : Ret) :
    Tuned port (calls ++ configureCalls (!port.isCdc && port.rxReady) got config ret) := by
  have hon : rxOnFrom false calls = port.rxReady := h.enabled
  have hset := h.callback
  refine ⟨?_, ?_, fun huart => ?_, fun hcdc => ?_, down_of_up up, h.waiting⟩
  · show rxOnFrom false _ = _
    rw [rxOnFrom_append, hon]
    cases port.isCdc <;> cases port.rxReady <;> rfl
  · rw [callback_append, hset]
    cases port.isCdc <;> cases port.rxReady <;> rfl
  · rw [configuredOn_append, h.quiet huart, hon, huart]
    cases port.rxReady <;> rfl
  · rw [hcdc]
    refine fun hmem => (List.mem_append.mp hmem).elim (h.cdc hcdc) fun hmem => ?_
    rcases List.mem_cons.mp hmem with heq | hmem
    · cases heq
    · cases List.mem_singleton.mp hmem

/-- What the configuration does. -/
theorem configure_spec (h : Tuned port calls) (answers : Answers) (baud : UInt32) :
    Tuned port (calls ++ (port.configure answers baud).2) ∧
      ((port.configure answers baud).1 = .ok ↔ baud ≠ 0 ∧ port.up ∧ (answers.configure = .ok ∨
        (port.isCdc = true ∧
          (answers.configure = .err .ENOSYS ∨ answers.configure = .err .ENOTSUP)))) := by
  unfold SerialPort.configure
  split
  · rename_i hzero
    rw [List.append_nil]
    exact ⟨h, fun hret => absurd hret (err_ne_ok _), fun hok => absurd hzero hok.1⟩
  · rename_i hbaud
    split
    · rename_i down
      rw [List.append_nil]
      exact ⟨h, fun hret => absurd hret (err_ne_ok _),
        fun hok => absurd hok.2.1 (not_up_of_down down)⟩
    · rename_i up
      have up := up_of_not_down up
      dsimp only
      split
      · rename_i unsupported
        refine ⟨h.configured up _ _ _, ?_⟩
        split
        · rename_i hcdc
          exact ⟨fun _ => ⟨hbaud, up, .inr ⟨hcdc, unsupported⟩⟩, fun _ => rfl⟩
        · rename_i huart
          exact ⟨fun hok => ⟨hbaud, up, .inl hok⟩, fun hok =>
            hok.2.2.elim id fun hcdc => absurd hcdc.1 huart⟩
      · rename_i supported
        refine ⟨h.configured up _ _ _, fun hok => ⟨hbaud, up, .inl hok⟩, fun hok => ?_⟩
        exact hok.2.2.elim id fun hcdc => absurd hcdc.2 supported

/-- When `rtbus_runtime_serial_begin` succeeds. -/
def Begins (port : SerialPort n) (answers : Answers) (baud : UInt32) : Prop :=
  baud ≠ 0 ∧ port.up ∧ (answers.configure = .ok ∨ (port.isCdc = true ∧
    (answers.configure = .err .ENOSYS ∨ answers.configure = .err .ENOTSUP))) ∧
    (port.rxReady = true ∨ answers.callbackSet = .ok)

/-- What `rtbus_runtime_serial_begin` does. -/
theorem begin_spec (h : Tuned port calls) (answers : Answers) (baud : UInt32) :
    Tuned (port.begin answers baud).2.1 (calls ++ (port.begin answers baud).2.2) ∧
      (port.begin answers baud).2.1.queue = port.queue ∧
      ((port.begin answers baud).1 = .ok ↔ Begins port answers baud) ∧
      ((port.begin answers baud).1 = .ok → (port.begin answers baud).2.1.prepared = true) ∧
      ((port.begin answers baud).1 ≠ .ok →
        (port.begin answers baud).2.1.prepared = port.prepared) := by
  obtain ⟨hconfigured, hok⟩ := configure_spec h answers baud
  unfold SerialPort.begin
  dsimp only
  split
  · rename_i hfailed
    refine ⟨hconfigured, rfl, ⟨fun h => absurd h hfailed, fun begins => ?_⟩,
      fun h => absurd h hfailed, fun _ => rfl⟩
    obtain ⟨hbaud, up, hset, _⟩ := begins
    exact absurd (hok.mpr ⟨hbaud, up, hset⟩) hfailed
  · rename_i hset
    obtain ⟨hbaud, up, hset⟩ := hok.mp (not_not.mp hset)
    split
    · rename_i hprepared
      have hready := port.rxReady_of_prepared hprepared
      exact ⟨hconfigured, rfl, ⟨fun _ => ⟨hbaud, up, hset, .inl hready⟩, fun _ => rfl⟩,
        fun _ => hprepared, fun h => absurd rfl h⟩
    · obtain ⟨hprepare, hqueue, hprepared, hready⟩ := prepareRx_spec hconfigured answers
      rw [List.append_assoc] at hprepare
      split
      · rename_i hok
        exact ⟨hprepare.setPrepared _, hqueue, ⟨fun _ => ⟨hbaud, up, hset,
          (hready.mp hok).imp_right And.right⟩, fun _ => rfl⟩, fun _ => rfl, fun h => absurd rfl h⟩
      · rename_i hfailed
        refine ⟨hprepare, hqueue, ⟨fun h => absurd h hfailed, fun begins => ?_⟩,
          fun h => absurd h hfailed, fun _ => hprepared⟩
        obtain ⟨_, _, _, hrx⟩ := begins
        exact absurd (hready.mpr (hrx.imp_right fun hcallback => ⟨up, hcallback⟩)) hfailed

/-- What a turn of the loop of `rtbus_runtime_serial_start` does. -/
theorem startPort_spec (h : Tuned port calls) (answers : Answers) :
    Tuned (port.startPort answers).2.1 (calls ++ (port.startPort answers).2.2) ∧
      (port.startPort answers).2.1.queue = port.queue := by
  obtain ⟨hprepare, hqueue, _⟩ := prepareRx_spec h answers
  unfold SerialPort.startPort
  dsimp only
  split
  · rw [List.append_nil]
    exact ⟨h, rfl⟩
  · split
    · exact ⟨hprepare.setPrepared _, hqueue⟩
    · exact ⟨hprepare, hqueue⟩

end Port

/-! ## The ring does not matter -/

section Ring

variable {n : Nat}

/-- A byte that is received changes the ring of its port only. -/
theorem receiveByte_ports (s : Service n) (id : Fin 2) (byte : UInt8) (other : Fin 2) :
    SameFlags (s.ports other) ((s.receiveByte id byte).2.ports other) ∧
      (other ≠ id → (s.receiveByte id byte).2.ports other = s.ports other) := by
  have hput : ∀ (s' : Service n) (id : Fin 2), s'.ports = s.ports →
      SameFlags (s.ports other) ((s'.setPort id ((s.ports id).rxPut byte)).ports other) ∧
        (other ≠ id →
          (s'.setPort id ((s.ports id).rxPut byte)).ports other = s.ports other) := by
    intro s' id hports
    by_cases hid : other = id
    · subst hid
      rw [Service.setPort_self]
      exact ⟨⟨rfl, rfl, rfl, rfl⟩, fun ne => absurd rfl ne⟩
    · rw [Service.setPort_other _ hid, hports]
      exact ⟨.refl _, fun _ => rfl⟩
  unfold Service.receiveByte
  split
  · rename_i hid
    subst hid
    dsimp only
    split
    · exact hput _ 0 rfl
    · exact ⟨.refl _, fun _ => rfl⟩
  · exact hput s id rfl

/-- A receive interrupt of one port leaves the flags of both and all else of the other. -/
theorem receiveChunk_ports (s : Service n) (id : Fin 2) (bytes : List UInt8) (other : Fin 2) :
    SameFlags (s.ports other) ((s.receiveChunk id bytes).2.ports other) ∧
      (other ≠ id → (s.receiveChunk id bytes).2.ports other = s.ports other) := by
  induction bytes generalizing s with
  | nil => exact ⟨.refl _, fun _ => rfl⟩
  | cons byte rest ih =>
    obtain ⟨hflags, hother⟩ := receiveByte_ports s id byte other
    obtain ⟨hflags', hother'⟩ := ih (s.receiveByte id byte).2
    exact ⟨hflags.trans hflags', fun ne => (hother' ne).trans (hother ne)⟩

/-- Taking a byte leaves the flags. -/
theorem rxGet_sameFlags (port : SerialPort n) : SameFlags port port.rxGet.2 := by
  unfold SerialPort.rxGet
  split <;> exact ⟨rfl, rfl, rfl, rfl⟩

/-- So does a read. -/
theorem readLoop_sameFlags (port : SerialPort n) (pollIn : List UInt8) (size : Nat) :
    SameFlags port (port.readLoop pollIn size).2 := by
  induction size generalizing port pollIn with
  | zero => exact .refl _
  | succ size ih =>
    have hget := rxGet_sameFlags port
    unfold SerialPort.readLoop
    cases hres : port.rxGet with
    | mk got port' =>
      rw [hres] at hget
      cases got with
      | some byte => exact hget.trans (ih port' pollIn)
      | none =>
        dsimp only
        split
        · exact hget
        · cases pollIn with
          | nil => exact hget
          | cons byte rest => exact hget.trans (ih port' rest)

/-- A read takes from the ring of a port that is ready, and of no other. -/
theorem read_ports (s : Service n) (port : Nat) (pollIn : List UInt8) (size : Nat) (id : Fin 2) :
    SameFlags (s.ports id) ((s.read port pollIn size).2.ports id) ∧
      ((s.ports id).rxReady = false →
        (s.read port pollIn size).2.ports id = s.ports id) := by
  unfold Service.read
  split
  · rename_i hport
    dsimp only
    split
    · exact ⟨.refl _, fun _ => rfl⟩
    · rename_i hup
      by_cases hid : id = ⟨port, hport⟩
      · subst hid
        rw [Service.setPort_self]
        refine ⟨readLoop_sameFlags _ _ _, fun hwait => absurd (.inr (.inl fun hprepared => ?_)) hup⟩
        have hready := (s.ports ⟨port, hport⟩).rxReady_of_prepared hprepared
        rw [hwait] at hready
        cases hready
      · rw [Service.setPort_other _ hid]
        exact ⟨.refl _, fun _ => rfl⟩
  · exact ⟨.refl _, fun _ => rfl⟩

end Ring

namespace Ports

/-! ## Runs -/

variable {n : Nat} {m m' : Ports n}

/-- The ports with their drivers. -/
def AllTuned (m : Ports n) : Prop := ∀ id, Tuned (m.service.ports id) (m.calls id)

/-- A port that stays in tune with the calls made for it. -/
theorem AllTuned.setPort (h : m.AllTuned) {id : Fin 2} {port : SerialPort n}
    {calls : List DriverCall} (tuned : Tuned port (m.calls id ++ calls)) :
    (m.setPort id port calls).AllTuned := by
  intro other
  show Tuned ((m.service.setPort id port).ports other)
    (Function.update m.calls id (m.calls id ++ calls) other)
  by_cases hid : other = id
  · subst hid
    rw [Service.setPort_self, Function.update_self]
    exact tuned
  · rw [Service.setPort_other _ hid, Function.update_of_ne hid]
    exact h other

/-- The ports after an event that leaves the drivers alone. -/
theorem AllTuned.of_rings (h : m.AllTuned) {service : Service n}
    (rings : ∀ id, SameFlags (m.service.ports id) (service.ports id) ∧
      ((m.service.ports id).rxReady = false → (service.ports id).queue = [])) :
    AllTuned { m with service := service } :=
  fun id => (h id).of_same (rings id).1 (rings id).2

/-- One event keeps both ports in tune. -/
theorem AllTuned.step (h : m.AllTuned) {e : PortsEvent} (step : Step m e m') : m'.AllTuned := by
  cases e with
  | init answers =>
    cases step
    have hfirst := h.setPort (startPort_spec (h port0) (answers port0)).1
    exact hfirst.setPort (startPort_spec (hfirst port1) (answers port1)).1
  | begin port baud answers =>
    cases step
    unfold Ports.begin
    split
    · exact h.setPort (begin_spec (h _) answers baud).1
    · exact h
  | fifo id chunks =>
    unfold Step Ports.step at step
    dsimp only at step
    split at step
    · rename_i listening
      cases step
      refine h.of_rings fun other => ?_
      rw [Service.drainFifo_eq]
      obtain ⟨hflags, hother⟩ := receiveChunk_ports m.service id (fifoBytes chunks) other
      refine ⟨hflags, fun hwait => ?_⟩
      have hne : other ≠ id := by
        rintro rfl
        have hready := (h other).enabled.symm.trans listening.1
        rw [hwait] at hready
        cases hready
      rw [hother hne]
      exact (h other).waiting hwait
    · cases step
  | read port pollIn size =>
    cases step
    refine h.of_rings fun id => ?_
    obtain ⟨hflags, hwaiting⟩ := read_ports m.service port pollIn size id
    refine ⟨hflags, fun hwait => ?_⟩
    rw [hwaiting hwait]
    exact (h id).waiting hwait
  | flush id =>
    cases step
    refine h.of_rings fun other => ?_
    unfold Service.flushRx
    by_cases hid : other = id
    · subst hid
      rw [Service.setPort_self]
      exact ⟨⟨rfl, rfl, rfl, rfl⟩, fun _ => SerialPort.queue_rxClear _⟩
    · rw [Service.setPort_other _ hid]
      exact ⟨.refl _, (h other).waiting⟩

/-- At boot no call has been made. -/
theorem Start.allTuned (start : m.Start) : m.AllTuned := by
  intro id
  obtain ⟨hready, hqueue, hcalls⟩ := start id
  rw [hcalls]
  refine ⟨hready.symm, ?_, fun _ => rfl, fun _ => List.not_mem_nil, fun _ => rfl, fun _ => hqueue⟩
  rw [hready]
  rfl

/-- In every run, whatever the drivers answer, and whenever bytes come, are read or flushed: between
the events the receive interrupt of a port is on, with the callback for its kind of port, exactly if
the port is ready; a UART is never configured with its interrupt on; that of a CDC port is never
switched off; a device that is missing or not ready gets no call. And from there a request to begin
succeeds exactly if it can, prepares exactly that port then, and loses no byte that was received. -/
theorem receiver_kept (h : Run.Reachable Start Step m) :
    m.AllTuned ∧ ∀ port baud answers,
      ((m.begin port baud answers).1 = .ok ↔
        ∃ inside : port.toNat < 2, Begins (m.service.ports ⟨port.toNat, inside⟩) answers baud) ∧
      ∀ id, ((m.begin port baud answers).2.service.ports id).queue = (m.service.ports id).queue ∧
        ((m.begin port baud answers).2.service.ports id).prepared =
          ((m.service.ports id).prepared ||
            decide (id.val = port.toNat ∧ (m.begin port baud answers).1 = .ok)) := by
  have tuned : m.AllTuned := Run.Reachable.invariant (I := AllTuned) (fun _ => Start.allTuned)
    (fun _ _ _ hs step => AllTuned.step hs step) h
  refine ⟨tuned, fun port baud answers => ?_⟩
  unfold Ports.begin
  split
  · rename_i inside
    obtain ⟨_, hqueue, hok, hdone, hfailed⟩ := begin_spec (tuned ⟨port.toNat, inside⟩) answers baud
    refine ⟨hok.trans ⟨fun begins => ⟨inside, begins⟩, fun begins => begins.elim fun _ h => h⟩,
      fun id => ?_⟩
    show ((m.service.setPort _ _).ports id).queue = _ ∧
      ((m.service.setPort _ _).ports id).prepared = _
    by_cases hid : id = ⟨port.toNat, inside⟩
    · subst hid
      rw [Service.setPort_self]
      refine ⟨hqueue, ?_⟩
      by_cases hret : ((m.service.ports ⟨port.toNat, inside⟩).begin answers baud).1 = .ok
      · rw [hdone hret, decide_eq_true ⟨rfl, hret⟩, Bool.or_true]
      · rw [hfailed hret, decide_eq_false fun hboth => hret hboth.2, Bool.or_false]
    · rw [Service.setPort_other _ hid, decide_eq_false fun hboth => hid (Fin.ext hboth.1),
        Bool.or_false]
      exact ⟨rfl, rfl⟩
  · rename_i outside
    refine ⟨⟨fun hret => absurd hret (err_ne_ok _), fun begins => absurd begins.fst outside⟩,
      fun id => ⟨rfl, ?_⟩⟩
    have hret : ¬ (id.val = port.toNat ∧ (Ret.err .EINVAL : Ret) = .ok) :=
      fun h => absurd h.2 (err_ne_ok _)
    show (m.service.ports id).prepared = (_ || decide _)
    rw [decide_eq_false hret, Bool.or_false]

/-- Two ports after boot, a UART and a CDC port, with rings of 16 bytes. -/
def bootPorts : Ports 16 where
  service := ⟨fun id => ⟨0, 0, fun _ => 0, id == port1, false, false, true, true, nofun⟩, .init⟩
  calls _ := []

/-- A driver that cannot be configured. -/
def noConfig : Answers := ⟨.error .ENOSYS, .err .ENOSYS, .ok⟩

/-- The UART is configured in vain, and its interrupt is on again. -/
theorem refused_begin : ∃ m : Ports 16, Run.Reachable Start Step m ∧
    DriverCall.rxDisable ∈ m.calls 0 ∧ m.AllTuned ∧
    (m.begin 0 9600 noConfig).1 ≠ .ok ∧ (m.begin 1 9600 noConfig).1 = .ok := by
  obtain ⟨m, run, htest⟩ := Run.exists_of_follow (Ports.step (n := 16)) (fun _ _ => true)
    [.init fun _ => noConfig, .begin 0 115200 noConfig, .fifo 0 [[0x68]]] bootPorts
    (fun m => decide (DriverCall.rxDisable ∈ m.calls 0) &&
      decide ((m.begin 0 9600 noConfig).1 ≠ .ok ∧ (m.begin 1 9600 noConfig).1 = .ok))
    (by decide +kernel)
  obtain ⟨hcalls, hboth⟩ := Bool.and_eq_true_iff.mp htest
  have reach : Run.Reachable Start Step m :=
    .follow (fun _ _ _ _ h => h) (.start fun id =>
      ⟨rfl, (bootPorts.service.ports id).queue_rxClear, rfl⟩) run
  exact ⟨m, reach, of_decide_eq_true hcalls, (receiver_kept reach).1, of_decide_eq_true hboth⟩

end Ports

end Rtbus.Serial
