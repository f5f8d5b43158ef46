import Rtbus.Base.Errno
import Rtbus.Base.Memory

/-!
# YMODEM packets

A packet is a header byte that says how long its payload is, the block number and its complement,
the payload, and its CRC. `sendPacket` is what the host puts on the line, `ymodemReadPacket` is what
the receiver makes of the bytes that come behind the header.
-/

namespace Rtbus.Ymodem

/-- `YMODEM_SOH`. -/
def soh : UInt8 := 0x01
/-- `YMODEM_STX`. -/
def stx : UInt8 := 0x02
/-- `YMODEM_EOT`. -/
def eot : UInt8 := 0x04
/-- `YMODEM_ACK`. -/
def ack : UInt8 := 0x06
/-- `YMODEM_NAK`. -/
def nak : UInt8 := 0x15
/-- `YMODEM_CAN`. -/
def can : UInt8 := 0x18
/-- `YMODEM_CRC`, the letter `C`. -/
def crcRequest : UInt8 := 0x43

/-- `YMODEM_BLOCK_128`. -/
def block128 : Nat := 128
/-- `YMODEM_BLOCK_1024`. -/
def block1024 : Nat := 1024
/-- `YMODEM_PACKET_OVERHEAD`: the number, its complement and the two bytes of the CRC. -/
def packetOverhead : Nat := 4

/-- One bit of `ymodem_crc16`. -/
def crc16Bit (crc : UInt16) : UInt16 :=
  if crc &&& 0x8000 ≠ 0 then (crc <<< 1) ^^^ 0x1021 else crc <<< 1

/-- `ymodem_crc16`, and `crc16_xmodem` of the host. -/
def ymodemCrc16 (data : List UInt8) : UInt16 :=
  data.foldl (fun (crc : UInt16) byte => Nat.repeat crc16Bit 8 (crc ^^^ byte.toUInt16 <<< (8 : UInt16))) 0

/-- The two bytes that follow a payload. -/
def crcBytes (data : List UInt8) : List UInt8 :=
  let crc := ymodemCrc16 data
  [(crc >>> 8).toUInt8, crc.toUInt8]

/-- `send_packet`. -/
def sendPacket (start blockNo : UInt8) (data : List UInt8) : List UInt8 :=
  start :: blockNo :: ~~~ blockNo :: data ++ crcBytes data

/-- The length of the payload behind a header byte, if it starts a packet. -/
def payloadLen (header : UInt8) : Option Nat :=
  if header = soh then some block128 else if header = stx then some block1024 else none

/-- What `ymodem_read_packet` checks once all bytes are in `ymodem_packet`: the block number and the
payload. -/
def checkPacket (len : Nat) (packet : List UInt8) : Except Errno (UInt8 × List UInt8) :=
  let number := packet.getD 0 0
  let payload := (packet.drop 2).take len
  let expectedCrc := (packet.getD (len + 2) 0).toUInt16 <<< 8 ||| (packet.getD (len + 3) 0).toUInt16
  if number + packet.getD 1 0 ≠ 0xff then .error .EBADMSG
  else if ymodemCrc16 payload ≠ expectedCrc then .error .EBADMSG
  else .ok (number, payload)

/-- `ymodem_read_packet`, where `received` is what comes in time behind the header. -/
def ymodemReadPacket (header : UInt8) (received : List UInt8) : Except Errno (UInt8 × List UInt8) :=
  match payloadLen header with
  | none => .error .EINVAL
  | some len =>
    if received.length < len + packetOverhead then .error .ETIMEDOUT
    else checkPacket len (received.take (len + packetOverhead))

/-- A block number and its complement. -/
theorem number_add_complement (number : UInt8) : number + ~~~ number = 0xff := by
  apply UInt8.toBitVec_inj.mp
  show number.toBitVec + ~~~ number.toBitVec = BitVec.allOnes 8
  exact BitVec.add_not_self _

/-- The receiver reads the packet that the host sends. -/
theorem read_sendPacket (start number : UInt8) (data rest : List UInt8)
    (h : payloadLen start = some data.length) :
    ymodemReadPacket start ((sendPacket start number data).drop 1 ++ rest) = .ok (number, data) := by
  have hsent : (sendPacket start number data).drop 1 ++ rest =
      (number :: ~~~ number :: data ++ crcBytes data) ++ rest := rfl
  have hlen : (number :: ~~~ number :: data ++ crcBytes data).length =
      data.length + packetOverhead := by
    simp [crcBytes, packetOverhead]
  unfold ymodemReadPacket
  rw [h, hsent]
  dsimp only
  rw [if_neg (by rw [List.length_append, hlen]; omega), ← hlen, List.take_left]
  unfold checkPacket
  have hhigh : (number :: ~~~ number :: data ++ crcBytes data).getD (data.length + 2) 0 =
      (ymodemCrc16 data >>> 8).toUInt8 := by
    simp [crcBytes]
  have hlow : (number :: ~~~ number :: data ++ crcBytes data).getD (data.length + 3) 0 =
      (ymodemCrc16 data).toUInt8 := by
    simp [crcBytes]
  have hpayload : ((number :: ~~~ number :: data ++ crcBytes data).drop 2).take data.length = data :=
    List.take_left
  have hsum : (number :: ~~~ number :: data ++ crcBytes data).getD 0 0 +
      (number :: ~~~ number :: data ++ crcBytes data).getD 1 0 = 0xff := number_add_complement number
  dsimp only
  rw [hhigh, hlow, hpayload, word_of_bytes, hsum, if_neg (not_not.mpr rfl),
    if_neg (not_not.mpr rfl)]
  rfl

end Rtbus.Ymodem
