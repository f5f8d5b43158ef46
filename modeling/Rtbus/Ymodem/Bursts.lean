import Mathlib.Data.List.Basic
import Rtbus.Base.ShiftRegister
import Rtbus.Ymodem.Packet

/-!
# The CRC of a packet catches every burst

`ymodem_crc16` is a shift register into which the payload is fed, the most significant bit of a byte
first. Fed with a payload and its CRC it ends at zero, and with nothing else behind this payload. What
changes on the line is fed in as well, so the receiver takes a changed packet only if the change by
itself leaves the register at zero.
-/

namespace Rtbus.Ymodem

open ShiftRegister

/-- The bits of a byte, the most significant first. -/
def byteBits (byte : UInt8) : List Bool :=
  (List.range 8).map fun i => byte.toBitVec.getMsbD i

/-- The bits of some bytes, as they are on the line. -/
def bits (bytes : List UInt8) : List Bool := bytes.flatMap byteBits

/-- A packet whose payload and CRC are changed on the line: the bits of the pattern are. -/
def garbled (packet pattern : List UInt8) : List UInt8 :=
  packet.take 3 ++ List.zipWith (· ^^^ ·) (packet.drop 3) pattern

/-- A change of at least one bit, and of none outside 16 consecutive ones. -/
structure Burst (pattern : List UInt8) : Prop where
  changes : ∃ byte ∈ pattern, byte ≠ 0
  within : ∃ first, ∀ k, (bits pattern)[k]? = some true → first ≤ k ∧ k < first + 16

/-- The word that `ymodem_crc16` feeds back. -/
def feedback : BitVec 16 := 0x1021

/-! ## The register -/

/-- The loop of the source is a shift of the register. -/
theorem toBitVec_crc16Bit (crc : UInt16) : (crc16Bit crc).toBitVec = shift feedback crc.toBitVec := by
  have hmsb : (crc &&& 0x8000 ≠ 0) ↔ crc.toBitVec.msb = true := by
    rw [Ne, ← UInt16.toBitVec_inj, BitVec.msb_eq_getLsbD_last]
    show ¬ crc.toBitVec &&& BitVec.twoPow 16 15 = 0#16 ↔ _
    rw [BitVec.and_twoPow]
    cases crc.toBitVec.getLsbD (16 - 1) <;> simp
  unfold crc16Bit shift
  by_cases h : crc &&& 0x8000 ≠ 0
  · rw [if_pos h, if_pos (hmsb.mp h)]
    rfl
  · rw [if_neg h, if_neg fun h' => h (hmsb.mpr h')]
    rfl

theorem bits_cons (byte : UInt8) (bytes : List UInt8) :
    bits (byte :: bytes) = byteBits byte ++ bits bytes := List.flatMap_cons

/-- The bits of bytes in two parts. -/
theorem bits_append (a b : List UInt8) : bits (a ++ b) = bits a ++ bits b := List.flatMap_append

theorem length_byteBits (byte : UInt8) : (byteBits byte).length = 8 := by
  unfold byteBits
  rw [List.length_map, List.length_range]

/-- The bits of a byte, in a register of 16. -/
theorem loaded_byteBits (byte : UInt8) :
    loaded (byteBits byte) = (byte.toUInt16 <<< (8 : UInt16)).toBitVec := by
  obtain ⟨byte⟩ := byte
  revert byte
  decide +kernel

/-- One byte is eight bits. -/
theorem feed_byteBits (crc : UInt16) (byte : UInt8) :
    (Nat.repeat crc16Bit 8 (crc ^^^ byte.toUInt16 <<< (8 : UInt16))).toBitVec =
      feed feedback (byteBits byte) crc.toBitVec := by
  have hrepeat (n : Nat) (crc : UInt16) :
      (Nat.repeat crc16Bit n crc).toBitVec = (shift feedback)^[n] crc.toBitVec := by
    induction n with
    | zero => rfl
    | succ n ih =>
      rw [Function.iterate_succ_apply', ← ih]
      exact toBitVec_crc16Bit _
  rw [hrepeat, feed_eq (by rw [length_byteBits]; decide), length_byteBits, loaded_byteBits]
  rfl

/-- The CRC of some bytes is what they leave in the register. -/
theorem toBitVec_ymodemCrc16 (data : List UInt8) :
    (ymodemCrc16 data).toBitVec = feed feedback (bits data) 0#16 := by
  have hfold (crc : UInt16) : (data.foldl (fun (crc : UInt16) byte =>
      Nat.repeat crc16Bit 8 (crc ^^^ byte.toUInt16 <<< (8 : UInt16))) crc).toBitVec =
        feed feedback (bits data) crc.toBitVec := by
    induction data generalizing crc with
    | nil => rfl
    | cons byte data ih =>
      rw [List.foldl_cons, ih, feed_byteBits, bits_cons, feed_append]
  exact hfold 0

/-- Two bytes are a word of 16 bits. -/
theorem loaded_bits (high low : UInt8) : loaded (bits [high, low]) =
    (high.toUInt16 <<< 8 ||| low.toUInt16).toBitVec := by
  rw [bits_cons, bits_cons, loaded_append, loaded_append, length_byteBits, length_byteBits,
    loaded_byteBits, loaded_byteBits]
  show high.toBitVec.setWidth 16 <<< 8 ^^^ (low.toBitVec.setWidth 16 <<< 8 ^^^ 0#16 >>> 8) >>> 8 =
    high.toBitVec.setWidth 16 <<< 8 ||| low.toBitVec.setWidth 16
  apply BitVec.eq_of_getLsbD_eq
  intro i hi
  rcases Nat.lt_or_ge i 8 with hlow | hhigh
  · simp [hlow, hi, show 8 + i < 16 by omega]
  · have hzero : low.toBitVec.getLsbD i = false := BitVec.getLsbD_of_ge _ _ hhigh
    simp [hi, hzero, show ¬ i < 8 by omega, show ¬ 8 + i < 16 by omega]

/-- Behind a payload, two bytes leave zero if they are its CRC, and only then. -/
theorem feed_crc_iff (data : List UInt8) (high low : UInt8) :
    feed feedback (bits (data ++ [high, low])) 0#16 = 0#16 ↔
      ymodemCrc16 data = high.toUInt16 <<< 8 ||| low.toUInt16 := by
  have hlen : (bits [high, low]).length = 16 := by
    rw [bits_cons, bits_cons, List.length_append, List.length_append, length_byteBits,
      length_byteBits]
    rfl
  rw [bits_append, feed_append, ← toBitVec_ymodemCrc16, feed_eq (by rw [hlen]), hlen, loaded_bits,
    ← UInt16.toBitVec_inj]
  constructor
  · intro h
    by_contra hne
    have odd : feedback.getLsbD 0 = true := rfl
    exact iterate_ne_zero odd 16 (mt BitVec.xor_eq_zero_iff.mp hne) h
  · intro h
    rw [h, BitVec.xor_self, iterate_zero]

/-! ## What is changed on the line -/

/-- The bits of a difference are the differences of the bits. -/
theorem byteBits_xor (a b : UInt8) :
    byteBits (a ^^^ b) = List.zipWith xor (byteBits a) (byteBits b) := by
  unfold byteBits
  rw [List.zipWith_map, List.zipWith_self]
  exact List.map_congr_left fun i _ => BitVec.getMsbD_xor

/-- The same for as many bytes. -/
theorem bits_zipWith {a b : List UInt8} (h : a.length = b.length) :
    bits (List.zipWith (· ^^^ ·) a b) = List.zipWith xor (bits a) (bits b) := by
  induction a generalizing b with
  | nil => rfl
  | cons x a ih =>
    cases b with
    | nil => cases h
    | cons y b =>
      rw [List.zipWith_cons_cons, bits_cons, bits_cons, bits_cons, byteBits_xor, ih (Nat.succ.inj h),
        List.zipWith_append (by rw [length_byteBits, length_byteBits])]

/-- Each byte has eight bits. -/
theorem length_bits (bytes : List UInt8) : (bits bytes).length = 8 * bytes.length := by
  induction bytes with
  | nil => rfl
  | cons byte bytes ih =>
    rw [bits_cons, List.length_append, length_byteBits, ih, List.length_cons]
    omega

/-- A byte that is not zero has a bit set. -/
theorem exists_bit {byte : UInt8} (h : byte ≠ 0) : true ∈ byteBits byte := by
  obtain ⟨byte⟩ := byte
  revert byte
  decide +kernel

/-- A burst does not leave the register at zero. -/
theorem Burst.feed_ne_zero {pattern : List UInt8} (h : Burst pattern) :
    feed feedback (bits pattern) 0#16 ≠ 0#16 := by
  obtain ⟨⟨byte, hbyte, hne⟩, first, within⟩ := h
  have some_ : true ∈ bits pattern := List.mem_flatMap.mpr ⟨byte, hbyte, exists_bit hne⟩
  exact feed_burst (show feedback.getLsbD 0 = true from rfl) (by decide) some_ within

/-- Bytes that leave the register different from zero are not taken for a payload and its CRC. -/
theorem refused_of_feed {start number : UInt8} {len : Nat} {w : List UInt8}
    (h : payloadLen start = some len) (hlen : w.length = len + 2)
    (hfeed : feed feedback (bits w) 0#16 ≠ 0#16) :
    ymodemReadPacket start (number :: ~~~ number :: w) = .error .EBADMSG := by
  obtain ⟨high, low, hbehind⟩ : ∃ high low, w.drop len = [high, low] :=
    List.length_eq_two.mp (by rw [List.length_drop, hlen]; omega)
  have hsplit : w = w.take len ++ [high, low] := by rw [← hbehind, List.take_append_drop]
  have htake : (w.take len).length = len := by rw [List.length_take, hlen]; omega
  have hhigh : (number :: ~~~ number :: w).getD (len + 2) 0 = high := by
    rw [hsplit, List.getD_eq_getElem?_getD, List.getElem?_cons_succ, List.getElem?_cons_succ,
      List.getElem?_append_right (by rw [htake]), htake, Nat.sub_self]
    rfl
  have hlow : (number :: ~~~ number :: w).getD (len + 3) 0 = low := by
    rw [hsplit, List.getD_eq_getElem?_getD, List.getElem?_cons_succ, List.getElem?_cons_succ,
      List.getElem?_append_right (by rw [htake]; omega), htake, Nat.add_sub_cancel_left]
    rfl
  have hsum : (number :: ~~~ number :: w).getD 0 0 + (number :: ~~~ number :: w).getD 1 0 = 0xff :=
    number_add_complement number
  have hpayload : ((number :: ~~~ number :: w).drop 2).take len = w.take len := rfl
  have hall : (number :: ~~~ number :: w).length = len + packetOverhead := by
    rw [List.length_cons, List.length_cons, hlen]
    rfl
  unfold ymodemReadPacket
  rw [h]
  dsimp only
  rw [if_neg (by omega), ← hall, List.take_length]
  unfold checkPacket
  dsimp only
  rw [hsum, if_neg (not_not.mpr rfl), hpayload, hhigh, hlow, if_pos]
  intro hcrc
  rw [hsplit] at hfeed
  exact hfeed ((feed_crc_iff _ high low).mpr hcrc)

/-- Of all packets with a payload of a valid length, the one that was sent is read with its payload,
and none is read whose payload and CRC were changed by a burst. -/
theorem burst_rejected (start number : UInt8) (data : List UInt8)
    (h : payloadLen start = some data.length) :
    ymodemReadPacket start ((sendPacket start number data).drop 1) = .ok (number, data) ∧
      ∀ pattern : List UInt8, pattern.length = data.length + 2 → Burst pattern →
        ymodemReadPacket start ((garbled (sendPacket start number data) pattern).drop 1) =
          .error .EBADMSG := by
  refine ⟨?_, fun pattern hlen burst => ?_⟩
  · have hread := read_sendPacket start number data [] h
    rwa [List.append_nil] at hread
  · obtain ⟨w, hw⟩ : ∃ w, w = List.zipWith (· ^^^ ·) (data ++ crcBytes data) pattern := ⟨_, rfl⟩
    have hreceived : (garbled (sendPacket start number data) pattern).drop 1 =
        number :: ~~~ number :: w := by rw [hw]; rfl
    have hcrc : (data ++ crcBytes data).length = pattern.length := by
      rw [hlen, List.length_append]
      rfl
    have hwlen : w.length = data.length + 2 := by
      rw [hw, List.length_zipWith, hcrc, Nat.min_self, hlen]
    have hfeed : feed feedback (bits w) 0#16 ≠ 0#16 := by
      have hzero : feed feedback (bits (data ++ crcBytes data)) 0#16 = 0#16 :=
        (feed_crc_iff data _ _).mpr (word_of_bytes _).symm
      have hsum := feed_xor feedback (a := bits (data ++ crcBytes data)) (b := bits pattern)
        (by rw [length_bits, length_bits, hcrc]) 0#16 0#16
      rw [BitVec.xor_self, ← bits_zipWith hcrc, ← hw, hzero, BitVec.zero_xor] at hsum
      rw [hsum]
      exact burst.feed_ne_zero
    rw [hreceived]
    exact refused_of_feed h hwlen hfeed

/-- A pattern of two bits, one in the last byte of the payload and one in the CRC. -/
def seamPattern : List UInt8 := List.replicate 127 0 ++ [0x01, 0x80, 0]

theorem length_seamPattern : seamPattern.length = 130 := by
  unfold seamPattern
  rw [List.length_append, List.length_replicate]
  rfl

/-- The pattern has two bits set, over the seam of two bytes. -/
theorem bits_seamPattern : bits seamPattern =
    List.replicate 1023 false ++ ([true, true] ++ List.replicate 15 false) := by
  decide +kernel

/-- It is a burst over the seam. -/
theorem seam_burst : Burst seamPattern := by
  refine ⟨⟨1, by decide, by decide⟩, 1023, fun k hk => ?_⟩
  rw [bits_seamPattern] at hk
  rcases Nat.lt_or_ge k 1023 with hlt | hge
  · rw [List.getElem?_append_left (by rwa [List.length_replicate]), List.getElem?_replicate,
      if_pos hlt] at hk
    cases hk
  · rw [List.getElem?_append_right (by rwa [List.length_replicate]), List.length_replicate] at hk
    have hlast : ∀ j < 17, ([true, true] ++ List.replicate 15 false)[j]? = some true → j < 16 := by
      decide
    obtain ⟨hlt, _⟩ := List.getElem?_eq_some_iff.mp hk
    have := hlast _ hlt hk
    omega

/-- A packet of zeros does not survive it. -/
theorem seam_rejected : ymodemReadPacket soh
    ((garbled (sendPacket soh 1 (List.replicate 128 0)) seamPattern).drop 1) = .error .EBADMSG :=
  (burst_rejected soh 1 (List.replicate 128 0) (by rw [List.length_replicate]; rfl)).2 seamPattern
    (by rw [length_seamPattern, List.length_replicate]) seam_burst

end Rtbus.Ymodem
