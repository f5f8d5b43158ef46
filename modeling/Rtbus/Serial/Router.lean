import Rtbus.Serial.Port

/-!
# Reception on a runtime serial port

Bytes reach a port through `uart_fifo_read`, in chunks. On port 0 each byte first passes the
control-line router: a line that starts with `@` at the start of a line is taken out of the stream
and handed to the command line interface byte by byte, everything else goes to the receive ring.
The router was written for text; it does not know whether the port is carrying a terminal session
or a firmware transfer.

What `rtbus_cli_submit_byte` does with a byte is not part of this file of the source, so
reception returns the bytes it submits, in order.
-/

namespace Rtbus.Serial

/-- `RTBUS_CLI_LINE_MAX`. -/
def cliLineMax : Nat := 256

/-- `'\r'`. -/
abbrev cr : UInt8 := 0x0d

/-- `'\n'`. -/
abbrev lf : UInt8 := 0x0a

/-- `'@'`. -/
abbrev at_ : UInt8 := 0x40

/-- The file-scope state of the control-line router. `controlLine` is the part of the line buffer
below `rtbus_runtime_serial_control_line_len`. -/
structure Router where
  controlLine : List UInt8
  controlActive : Bool
  controlOverflow : Bool
  port0LineStart : Bool
  deriving DecidableEq

/-- The router as it is initialised. -/
def Router.init : Router :=
  { controlLine := [], controlActive := false, controlOverflow := false, port0LineStart := true }

/-- `rtbus_runtime_serial_submit_control_line`: the bytes handed to the command line interface. -/
def Router.submitControlLine (r : Router) : List UInt8 × Router :=
  (if r.controlOverflow then [] else r.controlLine ++ [lf],
    { controlLine := [], controlActive := false, controlOverflow := false, port0LineStart := true })

/-- What `rtbus_runtime_serial_route_port0_byte` answers: whether the byte goes on to the ring,
the bytes submitted on the way, and the router afterwards. -/
structure Routed where
  forward : Bool
  submitted : List UInt8
  router : Router
  deriving DecidableEq

/-- `rtbus_runtime_serial_route_port0_byte`. -/
def Router.routePort0Byte (r : Router) (byte : UInt8) : Routed :=
  if r.controlActive then
    if byte = cr ∨ byte = lf then
      let (submitted, r') := r.submitControlLine
      { forward := false, submitted, router := r' }
    else if r.controlLine.length < cliLineMax - 1 then
      { forward := false, submitted := [],
        router := { r with controlLine := r.controlLine ++ [byte] } }
    else
      { forward := false, submitted := [], router := { r with controlOverflow := true } }
  else if r.port0LineStart ∧ byte = at_ then
    { forward := false, submitted := [],
      router := { controlLine := [byte], controlActive := true, controlOverflow := false,
                  port0LineStart := false } }
  else
    { forward := true, submitted := [],
      router := { r with port0LineStart := decide (byte = cr ∨ byte = lf) } }

/-- The port of the command line and of transfers. -/
def port0 : Fin 2 := ⟨0, Nat.zero_lt_two⟩

/-- The other port. -/
def port1 : Fin 2 := ⟨1, Nat.one_lt_two⟩

/-- The serial service: its two ports and the router of port 0. -/
structure Service (n : Nat) where
  ports : Fin 2 → SerialPort n
  router : Router

namespace Service

variable {n : Nat}

/-- The port table with one port replaced. -/
def setPort (s : Service n) (id : Fin 2) (port : SerialPort n) : Service n :=
  { s with ports := Function.update s.ports id port }

/-- `rtbus_runtime_serial_receive_byte`: the bytes submitted to the command line interface, and
the service afterwards. -/
def receiveByte (s : Service n) (id : Fin 2) (byte : UInt8) : List UInt8 × Service n :=
  if id = 0 then
    let routed := s.router.routePort0Byte byte
    let s' := { s with router := routed.router }
    (routed.submitted, if routed.forward then s'.setPort 0 ((s.ports 0).rxPut byte) else s')
  else
    ([], s.setPort id ((s.ports id).rxPut byte))

/-- The inner loop of `rtbus_runtime_serial_drain_fifo`, over one chunk. -/
def receiveChunk (s : Service n) (id : Fin 2) : List UInt8 → List UInt8 × Service n
  | [] => ([], s)
  | byte :: rest =>
    let (submitted, s') := s.receiveByte id byte
    let (submitted', s'') := s'.receiveChunk id rest
    (submitted ++ submitted', s'')

/-- `rtbus_runtime_serial_drain_fifo`, given what the calls of `uart_fifo_read` return: it stops at
the first call that returns nothing. -/
def drainFifo (s : Service n) (id : Fin 2) : List (List UInt8) → List UInt8 × Service n
  | [] => ([], s)
  | chunk :: rest =>
    if chunk = [] then ([], s)
    else
      let (submitted, s') := s.receiveChunk id chunk
      let (submitted', s'') := s'.drainFifo id rest
      (submitted ++ submitted', s'')

/-- `rtbus_runtime_serial_flush_rx` on a port of the table. -/
def flushRx (s : Service n) (id : Fin 2) : Service n := s.setPort id (s.ports id).rxClear

end Service

/-- The loop of `rtbus_runtime_serial_read`: up to `size` bytes from the ring, then, on a port
without interrupt reception, from the bytes `uart_poll_in` still yields. -/
def SerialPort.readLoop {n : Nat} (port : SerialPort n) (pollIn : List UInt8) :
    Nat → List UInt8 × SerialPort n
  | 0 => ([], port)
  | size + 1 =>
    match port.rxGet with
    | (some byte, port') =>
      let (bytes, port'') := port'.readLoop pollIn size
      (byte :: bytes, port'')
    | (none, port') =>
      if port'.isCdc ∨ port'.rxReady then ([], port')
      else
        match pollIn with
        | [] => ([], port')
        | byte :: pollIn' =>
          let (bytes, port'') := port'.readLoop pollIn' size
          (byte :: bytes, port'')

/-- `rtbus_runtime_serial_read` with a buffer that is not `NULL`. -/
def Service.read {n : Nat} (s : Service n) (port : Nat) (pollIn : List UInt8) (size : Nat) :
    List UInt8 × Service n :=
  if h : port < 2 then
    let id : Fin 2 := ⟨port, h⟩
    let p := s.ports id
    if ¬ p.hasDev ∨ ¬ p.prepared ∨ size = 0 ∨ ¬ p.deviceIsReady then ([], s)
    else
      let (bytes, p') := p.readLoop pollIn size
      (bytes, s.setPort id p')
  else ([], s)

/-! ## Runs -/

/-- What can happen to the serial service while a transfer owns port 0: a receive interrupt on one
of the ports, with what `uart_fifo_read` returns in it, and a read by a user of a port. -/
inductive SerialEvent
  | fifo (id : Fin 2) (chunks : List (List UInt8))
  | read (port : Nat) (pollIn : List UInt8) (size : Nat)

namespace Service

variable {n : Nat}

/-- One event: the bytes it returns to a reader of port 0, and the service afterwards. -/
def step (s : Service n) : SerialEvent → List UInt8 × Service n
  | .fifo id chunks => ([], (s.drainFifo id chunks).2)
  | .read port pollIn size =>
    let (bytes, s') := s.read port pollIn size
    (if port = 0 then bytes else [], s')

/-- A sequence of events: all bytes returned to the readers of port 0, in order. -/
def run (s : Service n) : List SerialEvent → List UInt8 × Service n
  | [] => ([], s)
  | e :: rest =>
    let (bytes, s') := s.step e
    let (bytes', s'') := s'.run rest
    (bytes ++ bytes', s'')

end Service

/-- The bytes of the chunks that a drain of the FIFO reads. -/
def fifoBytes : List (List UInt8) → List UInt8
  | [] => []
  | chunk :: rest => if chunk = [] then [] else chunk ++ fifoBytes rest

/-- The bytes received on port 0 in a sequence of events. -/
def received : List SerialEvent → List UInt8
  | [] => []
  | .fifo id chunks :: rest => (if id = 0 then fifoBytes chunks else []) ++ received rest
  | .read .. :: rest => received rest

end Rtbus.Serial
