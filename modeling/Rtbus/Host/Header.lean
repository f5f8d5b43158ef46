import Rtbus.Image.Header

/-!
# The packer on the host

`header.c` packs the payload of an application behind a header that it builds from the symbols of
the linker map. The header is written field by field into a zeroed buffer, as `put_le32` and its
like do; the fields follow each other without gaps, which is what `put_grow` is about.
-/

namespace Rtbus.Host

open Rtbus.Image

/-- A C string: no byte of it is the terminator. -/
structure CString where
  bytes : List UInt8
  nonzero : 0 ∉ bytes

/-- `struct application_symbols`. -/
structure ApplicationSymbols where
  slotStart : UInt32
  flashStart : UInt32
  entry : UInt32
  dataLoad : UInt32
  dataStart : UInt32
  dataEnd : UInt32
  bssStart : UInt32
  bssEnd : UInt32
  ramStart : UInt32
  ramEnd : UInt32

/-- `memcpy` to an offset of a buffer. -/
def put (buf : List UInt8) (off : Nat) (bytes : List UInt8) : List UInt8 :=
  buf.take off ++ bytes ++ buf.drop (off + bytes.length)

/-- The bytes of `put_le16`. -/
def le16Bytes (value : UInt16) : List UInt8 := [value.toUInt8, (value >>> 8).toUInt8]

/-- The bytes of `put_le32`. -/
def le32Bytes (value : UInt32) : List UInt8 :=
  [value.toUInt8, (value >>> 8).toUInt8, (value >>> 16).toUInt8, (value >>> 24).toUInt8]

/-- The bytes of `put_fixed_string`. -/
def fixedString (size : Nat) (value : CString) : List UInt8 :=
  let len := if value.bytes.length ≥ size then size - 1 else value.bytes.length
  value.bytes.take len ++ List.replicate (size - len) 0

/-- One bit of `crc32_update`. -/
def crc32Bit (crc : UInt32) : UInt32 := (crc >>> 1) ^^^ (0xedb88320 &&& (0 - (crc &&& 1)))

/-- One byte of `crc32_update`. -/
def crc32Byte (crc : UInt32) (byte : UInt8) : UInt32 :=
  Nat.repeat crc32Bit 8 (crc ^^^ byte.toUInt32)

/-- `crc32_update`. -/
def crc32Update (crc : UInt32) (data : List UInt8) : UInt32 :=
  ~~~ data.foldl crc32Byte (~~~ crc)

/-- `RTBUS_IMAGE_FLAGS_MAKE_NATIVE_ABI`. -/
def flagsMakeNativeAbi (version : UInt32) : UInt32 :=
  imageFlagNative ||| ((version <<< 24) &&& 0xff000000)

/-- `validate_symbols`, with the RAM size it returns. -/
def validateSymbols (symbols : ApplicationSymbols) : Option UInt32 :=
  if symbols.slotStart = 0 ∨ symbols.flashStart = 0 ∨ symbols.entry = 0 ∨ symbols.dataLoad = 0 ∨
      symbols.dataStart = 0 ∨ symbols.dataEnd = 0 ∨ symbols.bssStart = 0 ∨ symbols.bssEnd = 0 ∨
      symbols.ramStart = 0 ∨ symbols.ramEnd = 0 then
    none
  else if symbols.ramEnd ≤ symbols.ramStart then none
  else if symbols.dataStart < symbols.ramStart ∨ symbols.dataEnd > symbols.ramEnd ∨
      symbols.bssStart < symbols.ramStart ∨ symbols.bssEnd > symbols.ramEnd then
    none
  else some (symbols.ramEnd - symbols.ramStart)

/-- `build_header`. -/
def buildHeader (symbols : ApplicationSymbols) (name version : CString)
    (ramSize payloadSize payloadCrc : UInt32) : List UInt8 :=
  let header := List.replicate 128 0
  let header := put header 0 (le32Bytes imageMagic)
  let header := put header 4 (le16Bytes imageHeaderVersion)
  let header := put header 6 (le16Bytes 128)
  let header := put header 8 (le32Bytes payloadSize)
  let header := put header 12 (le32Bytes payloadCrc)
  let header := put header 16 (fixedString 16 version)
  let header := put header 32 (fixedString 64 name)
  let header := put header 96 (le32Bytes ramSize)
  let header := put header 100 (le32Bytes (flagsMakeNativeAbi apiVersion))
  let reserved := 104
  let header := put header (reserved + 0) (le32Bytes (symbols.entry - symbols.flashStart))
  let header := put header (reserved + 4) (le32Bytes (symbols.dataLoad - symbols.flashStart))
  let header := put header (reserved + 8) (le32Bytes (symbols.dataStart - symbols.ramStart))
  let header := put header (reserved + 12) (le32Bytes (symbols.dataEnd - symbols.dataStart))
  let header := put header (reserved + 16) (le32Bytes (symbols.bssStart - symbols.ramStart))
  put header (reserved + 20) (le32Bytes (symbols.bssEnd - symbols.bssStart))

/-- What `write_component_file` writes. -/
def componentFile (header payload : List UInt8) : List UInt8 := header ++ payload

/-- What `main` packs for symbols with this RAM size. -/
def packedFile (symbols : ApplicationSymbols) (name version : CString) (ramSize : UInt32)
    (payload : List UInt8) : List UInt8 :=
  componentFile (buildHeader symbols name version ramSize (UInt32.ofNat payload.length)
    (crc32Update 0 payload)) payload

/-! ## The header field by field -/

/-- What is written behind the part that is filled already extends it. -/
theorem put_grow (filled bytes : List UInt8) {room off : Nat} (behind : off = filled.length) :
    put (filled ++ List.replicate room 0) off bytes =
      (filled ++ bytes) ++ List.replicate (room - bytes.length) 0 := by
  subst behind
  unfold put
  rw [List.take_left' rfl, List.drop_append,
    List.drop_eq_nil_of_le (by omega : filled.length ≤ filled.length + bytes.length),
    Nat.add_sub_cancel_left, List.drop_replicate, List.nil_append]

/-- A word is packed into four bytes. -/
@[simp] theorem le32Bytes_length (value : UInt32) : (le32Bytes value).length = 4 := rfl

/-- A half word is packed into two. -/
@[simp] theorem le16Bytes_length (value : UInt16) : (le16Bytes value).length = 2 := rfl

/-- A name takes the bytes of its field. -/
@[simp] theorem fixedString_length {size : Nat} (pos : 0 < size) (value : CString) :
    (fixedString size value).length = size := by
  unfold fixedString
  dsimp only
  rw [List.length_append, List.length_take, List.length_replicate]
  split
  · omega
  · omega

/-- The fields of the header, in order. -/
def headerFields (symbols : ApplicationSymbols) (name version : CString)
    (ramSize payloadSize payloadCrc : UInt32) : List (List UInt8) :=
  [le32Bytes imageMagic, le16Bytes imageHeaderVersion, le16Bytes 128, le32Bytes payloadSize,
    le32Bytes payloadCrc, fixedString 16 version, fixedString 64 name, le32Bytes ramSize,
    le32Bytes (flagsMakeNativeAbi apiVersion), le32Bytes (symbols.entry - symbols.flashStart),
    le32Bytes (symbols.dataLoad - symbols.flashStart),
    le32Bytes (symbols.dataStart - symbols.ramStart),
    le32Bytes (symbols.dataEnd - symbols.dataStart),
    le32Bytes (symbols.bssStart - symbols.ramStart),
    le32Bytes (symbols.bssEnd - symbols.bssStart)]

/-- The header is its fields, one behind the other. -/
theorem buildHeader_eq (symbols : ApplicationSymbols) (name version : CString)
    (ramSize payloadSize payloadCrc : UInt32) :
    buildHeader symbols name version ramSize payloadSize payloadCrc =
      (headerFields symbols name version ramSize payloadSize payloadCrc).flatten := by
  unfold buildHeader
  dsimp only
  rw [← List.nil_append (List.replicate 128 0)]
  repeat rw [put_grow _ _ (by simp)]
  simp [headerFields]

/-- The header has 128 bytes. -/
theorem buildHeader_length (symbols : ApplicationSymbols) (name version : CString)
    (ramSize payloadSize payloadCrc : UInt32) :
    (buildHeader symbols name version ramSize payloadSize payloadCrc).length = 128 := by
  rw [buildHeader_eq]
  simp [headerFields]

/-! ## Reading it back -/

/-- A word is read back where it was packed. -/
theorem le32_here (value : UInt32) (rest : List UInt8) : le32 (le32Bytes value ++ rest) 0 = value := by
  refine UInt32.toNat_inj.mp ?_
  unfold le32 le32Bytes
  simp only [List.cons_append, List.nil_append, List.getD_cons_zero, List.getD_cons_succ,
    Nat.zero_add, UInt32.toNat_ofNat', UInt32.toNat_toUInt8, UInt32.toNat_shiftRight,
    Nat.shiftRight_eq_div_pow, UInt32.reduceToNat, Nat.reduceMod, Nat.reducePow]
  have := value.toNat_lt
  omega

/-- So is a half word. -/
theorem le16_here (value : UInt16) (rest : List UInt8) : le16 (le16Bytes value ++ rest) 0 = value := by
  refine UInt16.toNat_inj.mp ?_
  unfold le16 le16Bytes
  simp only [List.cons_append, List.nil_append, List.getD_cons_zero, List.getD_cons_succ,
    Nat.zero_add, UInt16.toNat_ofNat', UInt16.toNat_toUInt8, UInt16.toNat_shiftRight,
    Nat.shiftRight_eq_div_pow, UInt16.reduceToNat, Nat.reduceMod, Nat.reducePow]
  have := value.toNat_lt
  omega

theorem le32_drop (bytes : List UInt8) (off : Nat) : le32 bytes off = le32 (bytes.drop off) 0 := by
  unfold le32
  simp only [List.getD_eq_getElem?_getD, List.getElem?_drop, Nat.add_zero, Nat.zero_add]

theorem le16_drop (bytes : List UInt8) (off : Nat) : le16 bytes off = le16 (bytes.drop off) 0 := by
  unfold le16
  simp only [List.getD_eq_getElem?_getD, List.getElem?_drop, Nat.add_zero, Nat.zero_add]

/-- The fields in front of an offset are skipped. -/
theorem drop_field {a : List UInt8} {off : Nat} (h : a.length ≤ off) (rest : List UInt8) :
    (a ++ rest).drop off = rest.drop (off - a.length) := by
  rw [List.drop_append, List.drop_eq_nil_of_le h, List.nil_append]

/-- The metadata words of a header. -/
def packedMetadata (symbols : ApplicationSymbols) : NativeMetadata :=
  { entryOffset := symbols.entry - symbols.flashStart
    dataLoadOffset := symbols.dataLoad - symbols.flashStart
    dataRamOffset := symbols.dataStart - symbols.ramStart
    dataSize := symbols.dataEnd - symbols.dataStart
    bssRamOffset := symbols.bssStart - symbols.ramStart
    bssSize := symbols.bssEnd - symbols.bssStart }

/-- The bytes of the metadata words. -/
def packedReserved (symbols : ApplicationSymbols) : List UInt8 :=
  le32Bytes (symbols.entry - symbols.flashStart) ++
    (le32Bytes (symbols.dataLoad - symbols.flashStart) ++
      (le32Bytes (symbols.dataStart - symbols.ramStart) ++
        (le32Bytes (symbols.dataEnd - symbols.dataStart) ++
          (le32Bytes (symbols.bssStart - symbols.ramStart) ++
            (le32Bytes (symbols.bssEnd - symbols.bssStart) ++ [])))))

/-- The metadata is read back from the reserved bytes. -/
theorem ofBytes_packedReserved (symbols : ApplicationSymbols) :
    NativeMetadata.ofBytes (packedReserved symbols) = packedMetadata symbols := by
  unfold NativeMetadata.ofBytes packedReserved packedMetadata
  simp (disch := (simp only [le32Bytes_length]; decide)) only [le32_drop _ 4, le32_drop _ 8,
    le32_drop _ 12, le32_drop _ 16, le32_drop _ 20, drop_field, le32Bytes_length, Nat.reduceSub,
    List.drop_zero, le32_here]

/-- The runtime reads every field of the header as it was packed. -/
theorem ofBytes_buildHeader (symbols : ApplicationSymbols) (name version : CString)
    (ramSize payloadSize payloadCrc : UInt32) :
    Header.ofBytes (buildHeader symbols name version ramSize payloadSize payloadCrc) =
      { magic := imageMagic
        headerVersion := imageHeaderVersion
        headerSize := 128
        payloadSize := payloadSize
        payloadCrc32 := payloadCrc
        version := fixedString 16 version
        name := fixedString 64 name
        requiredRamSize := ramSize
        flags := flagsMakeNativeAbi apiVersion
        reserved := packedReserved symbols } := by
  have hversion : (fixedString 16 version).length = 16 := fixedString_length (by decide) version
  have hname : (fixedString 64 name).length = 64 := fixedString_length (by decide) name
  have hreserved : (packedReserved symbols).length = 24 := rfl
  rw [buildHeader_eq]
  unfold headerFields
  simp only [List.flatten_cons, List.flatten_nil]
  rw [← packedReserved]
  unfold Header.ofBytes
  simp (disch := (simp only [le32Bytes_length, le16Bytes_length, hversion, hname]; decide)) only
    [le32_drop _ 8, le32_drop _ 12, le32_drop _ 96, le32_drop _ 100, le16_drop _ 4, le16_drop _ 6,
      drop_field, le32Bytes_length, le16Bytes_length, hversion, hname, Nat.reduceSub,
      List.drop_zero, le32_here, le16_here]
  unfold imageVersionMax imageNameMax
  rw [List.take_left' hversion, List.take_left' hname,
    List.take_of_length_le (Nat.le_of_eq hreserved)]

end Rtbus.Host
