import Rtbus.Base.Program
import Rtbus.Image.Finish
import Rtbus.Ymodem.Line
import Rtbus.Ymodem.Metadata

/-!
# The YMODEM receiver

`rtbus_ymodem_recv` is a program over the operations it calls: those that read from the line, those
that write to it, and those of the image store. `turn` is one turn of its loop. `Device.serve` is
what the operations do on a device whose flash and whose line behave in any way.

`accepted` is history: the data blocks that were acknowledged, with the bytes they were read from.
-/

namespace Rtbus.Ymodem

open Rtbus.Image

/-- What `rtbus_ymodem_recv` calls. -/
inductive Op
  | serialBegin
  | flushRx
  | waitHeader
  | readByte (timeoutMs : Nat)
  | readExact (len timeoutMs : Nat)
  | put (byte : UInt8)
  | storeBegin (imageSize : Nat)
  | storeWrite (offset : Nat) (data : List UInt8)
  | storeFinish (status : Ret)

/-- What an operation returns. -/
def Op.Answer : Op → Type
  | .waitHeader | .readByte _ => Except Errno UInt8
  | .readExact _ _ => Except Errno (List UInt8)
  | .flushRx | .put _ => Unit
  | .serialBegin | .storeBegin _ | .storeWrite _ _ | .storeFinish _ => Ret

/-- The surroundings of the receiver. -/
def surroundings : Interface := ⟨Op, Op.Answer⟩

/-- A program of the receiver. -/
abbrev Recv (ρ : Type) := Prog surroundings ρ

/-- `rtbus_runtime_serial_begin`. -/
def serialBegin : Recv Ret := Prog.perform (I := surroundings) .serialBegin

/-- `rtbus_runtime_serial_flush_rx`. -/
def flushRx : Recv Unit := Prog.perform (I := surroundings) .flushRx

/-- `ymodem_wait_header`. -/
def waitHeader : Recv (Except Errno UInt8) := Prog.perform (I := surroundings) .waitHeader

/-- `ymodem_read_byte`. -/
def readByte (timeoutMs : Nat) : Recv (Except Errno UInt8) :=
  Prog.perform (I := surroundings) (.readByte timeoutMs)

/-- `ymodem_read_exact`. -/
def readExact (len timeoutMs : Nat) : Recv (Except Errno (List UInt8)) :=
  Prog.perform (I := surroundings) (.readExact len timeoutMs)

/-- `ymodem_put`. -/
def put (byte : UInt8) : Recv Unit := Prog.perform (I := surroundings) (.put byte)

/-- `rtbus_image_store_begin`. -/
def storeBegin (imageSize : Nat) : Recv Ret :=
  Prog.perform (I := surroundings) (.storeBegin imageSize)

/-- `rtbus_image_store_write`. -/
def storeWrite (offset : Nat) (data : List UInt8) : Recv Ret :=
  Prog.perform (I := surroundings) (.storeWrite offset data)

/-- `rtbus_image_store_finish`. -/
def storeFinish (status : Ret) : Recv Ret :=
  Prog.perform (I := surroundings) (.storeFinish status)

/-- A data block that was acknowledged: its header, the bytes behind it, and its payload. -/
structure Block where
  header : UInt8
  bytes : List UInt8
  payload : List UInt8

/-- The bytes of a block on the line. -/
def Block.wire (block : Block) : List UInt8 := block.header :: block.bytes

/-- The variables of `rtbus_ymodem_recv`, and `ymodem_data`. -/
structure Locals where
  expectedSize : Nat
  receivedSize : Nat
  expectedBlock : UInt8
  gotMetadata : Bool
  storeActive : Bool
  eotSeen : Bool
  data : List UInt8
  accepted : List Block

/-- The variables at the start. -/
def Locals.init (data : List UInt8) : Locals :=
  { expectedSize := 0, receivedSize := 0, expectedBlock := 1, gotMetadata := false
    storeActive := false, eotSeen := false, data := data, accepted := [] }

/-- A turn goes on, or the function returns. -/
abbrev Outcome := Locals ⊕ (Ret × Locals)

/-- `ymodem_read_packet`: the bytes that came behind the header, with what they are. -/
def readPacket (header : UInt8) : Recv (Except Errno (List UInt8 × UInt8 × List UInt8)) :=
  match payloadLen header with
  | none => pure (.error .EINVAL)
  | some len => do
    match ← readExact (len + packetOverhead) byteTimeoutMs with
    | .error e => pure (.error e)
    | .ok packet => pure ((checkPacket len packet).map fun read => (packet, read))

/-- No header came, or the sender has cancelled. -/
def recvAbort (e : Errno) (v : Locals) : Recv Outcome :=
  if v.storeActive then do
    let _ ← storeFinish (.err e)
    pure (.inr (.err e, v))
  else pure (.inr (.err e, v))

/-- The header is `YMODEM_EOT`. -/
def recvEot (v : Locals) : Recv Outcome :=
  if v.eotSeen then do
    put ack
    put crcRequest
    pure (.inl v)
  else do
    put nak
    pure (.inl { v with eotSeen := true })

/-- A packet before the metadata, whose payload of `len` bytes is in `ymodem_data`. `behind` is the
memory behind that buffer. -/
def recvMetadata (behind : List UInt8) (number : UInt8) (len : Nat) (v : Locals) : Recv Outcome :=
  if number ≠ 0 then do
    put nak
    pure (.inl v)
  else
    let expectedSize := ymodemParseFileSize (v.data ++ behind) len
    let v := { v with gotMetadata := true, expectedSize := expectedSize }
    if expectedSize = 0 then do
      put nak
      pure (.inr (.err .EINVAL, v))
    else do
      put ack
      put crcRequest
      match ← storeBegin expectedSize with
      | .err e => do
        put can
        pure (.inr (.err e, v))
      | .ok => pure (.inl { v with storeActive := true })

/-- A packet with the number 0 behind the end of the file. -/
def recvFinish (v : Locals) : Recv Outcome := do
  match ← storeFinish .ok with
  | .err e => do
    put can
    pure (.inr (.err e, { v with storeActive := false }))
  | .ok => do
    put ack
    pure (.inr (.ok, { v with storeActive := false }))

/-- A data block. -/
def recvBlock (number : UInt8) (block : Block) (v : Locals) : Recv Outcome :=
  if number ≠ v.expectedBlock then do
    put nak
    pure (.inl v)
  else do
    let writeLen := min block.payload.length (v.expectedSize - v.receivedSize)
    match ← storeWrite v.receivedSize (block.payload.take writeLen) with
    | .err e => do
      let _ ← storeFinish (.err e)
      put can
      pure (.inr (.err e, v))
    | .ok => do
      put ack
      pure (.inl { v with
        receivedSize := v.receivedSize + writeLen
        expectedBlock := v.expectedBlock + 1
        accepted := v.accepted ++ [block] })

/-- A packet that was read. -/
def recvPacket (behind : List UInt8) (number : UInt8) (block : Block) (v : Locals) : Recv Outcome :=
  let v := { v with data := receiveInto v.data block.payload }
  if v.gotMetadata = false then recvMetadata behind number block.payload.length v
  else if v.eotSeen ∧ number = 0 then recvFinish v
  else recvBlock number block v

/-- A header that was read. -/
def recvHeader (behind : List UInt8) (header : UInt8) (v : Locals) : Recv Outcome :=
  if header = can then recvAbort .ECANCELED v
  else if header = eot then recvEot v
  else do
    match ← readPacket header with
    | .error _ => do
      put nak
      pure (.inl v)
    | .ok (bytes, number, payload) => recvPacket behind number ⟨header, bytes, payload⟩ v

/-- The header is awaited until the metadata are there, and then read. -/
def readHeader (v : Locals) : Recv (Except Errno UInt8) :=
  if v.gotMetadata then readByte byteTimeoutMs else waitHeader

/-- One turn of the loop of `rtbus_ymodem_recv`. -/
def turn (behind : List UInt8) (v : Locals) : Recv Outcome := do
  match ← readHeader v with
  | .error e => recvAbort e v
  | .ok header => recvHeader behind header v

/-- `rtbus_ymodem_recv` up to its loop. -/
def recvStart (data : List UInt8) : Recv Outcome := do
  match ← serialBegin with
  | .err e => pure (.inr (.err e, .init data))
  | .ok => do
    flushRx
    pure (.inl (.init data))

/-- The device: the line, the image store, and what `rtbus_runtime_serial_begin` returns. -/
structure Device where
  line : Line
  store : Store
  opened : Ret

/-- The device with something done on the line. -/
def Device.onLine {α : Type} (d : Device) (r : Line × α) : α × Device := (r.2, { d with line := r.1 })

/-- The device with something done in the store. -/
def Device.onStore (d : Device) (r : Store × Ret) : Ret × Device := (r.2, { d with store := r.1 })

/-- What the operations do. -/
def Device.serve (b : Board) : Prog.Server surroundings Device
  | .serialBegin, d => some (d.opened, d)
  | .flushRx, d => some ((), { d with line := d.line.flushRx })
  | .waitHeader, d => some (d.onLine (ymodemWaitHeader d.line))
  | .readByte timeoutMs, d => some (d.onLine (ymodemReadByte timeoutMs d.line))
  | .readExact len timeoutMs, d => some (d.onLine (ymodemReadExact len timeoutMs d.line))
  | .put byte, d => some ((), { d with line := d.line.put byte })
  | .storeBegin imageSize, d => some (d.onStore (imageStoreBegin b imageSize d.store))
  | .storeWrite offset data, d => some (d.onStore (imageStoreWrite b offset data d.store))
  | .storeFinish status, d => some (d.onStore (imageStoreFinish b status d.store))

/-- `rtbus_ymodem_recv`, with at most `fuel` turns of its loop: what it returns, and the variables
and the device in the end. `data` is what `ymodem_data` holds from before. -/
def ymodemRecv (b : Board) (behind data : List UInt8) (fuel : Nat) (d : Device) :
    Option ((Ret × Locals) × Device) :=
  ((recvStart data).run (Device.serve b) d).bind fun started =>
    match started.1 with
    | .inl v => Prog.repeatFor (Device.serve b) (turn behind) fuel v started.2
    | .inr r => some (r, started.2)

end Rtbus.Ymodem
