import Rtbus.Base.Errno
import Rtbus.Base.Memory

/-!
# The image header

An image starts with 128 bytes of header. `Header.ofBytes` reads `struct rtbus_image_header` from
them, `NativeMetadata.ofBytes` reads `struct rtbus_image_native_metadata` from the reserved bytes of
the header. All words are little-endian.
-/

namespace Rtbus.Image

/-- `RTBUS_IMAGE_MAGIC`, `RTBUS_IMAGE_HEADER_VERSION`, `RTBUS_IMAGE_HEADER_SIZE`,
`RTBUS_IMAGE_NAME_MAX` and `RTBUS_IMAGE_VERSION_MAX`. -/
def imageMagic : UInt32 := 0x5746434d
def imageHeaderVersion : UInt16 := 2
def imageHeaderSize : Nat := 128
def imageNameMax : Nat := 64
def imageVersionMax : Nat := 16

/-- `RTBUS_IMAGE_FLAG_NATIVE`. -/
def imageFlagNative : UInt32 := 1

/-- `RTBUS_API_VERSION`, which is the ABI version that the runtime requires. -/
def apiVersion : UInt32 := 12

/-- `RTBUS_IMAGE_FLAGS_ABI_VERSION`. -/
def flagsAbiVersion (flags : UInt32) : UInt32 := (flags &&& 0xff000000) >>> 24

/-- A half-word at an offset. -/
def le16 (bytes : List UInt8) (at_ : Nat) : UInt16 :=
  UInt16.ofNat ((bytes.getD at_ 0).toNat + (bytes.getD (at_ + 1) 0).toNat * 2 ^ 8)

/-- A word at an offset. -/
def le32 (bytes : List UInt8) (at_ : Nat) : UInt32 :=
  UInt32.ofNat ((bytes.getD at_ 0).toNat + (bytes.getD (at_ + 1) 0).toNat * 2 ^ 8 +
    (bytes.getD (at_ + 2) 0).toNat * 2 ^ 16 + (bytes.getD (at_ + 3) 0).toNat * 2 ^ 24)

/-- `struct rtbus_image_header`. -/
structure Header where
  magic : UInt32
  headerVersion : UInt16
  headerSize : UInt16
  payloadSize : UInt32
  payloadCrc32 : UInt32
  version : List UInt8
  name : List UInt8
  requiredRamSize : UInt32
  flags : UInt32
  reserved : List UInt8
  deriving DecidableEq

/-- The header in 128 bytes. -/
def Header.ofBytes (bytes : List UInt8) : Header :=
  { magic := le32 bytes 0
    headerVersion := le16 bytes 4
    headerSize := le16 bytes 6
    payloadSize := le32 bytes 8
    payloadCrc32 := le32 bytes 12
    version := (bytes.drop 16).take imageVersionMax
    name := (bytes.drop 32).take imageNameMax
    requiredRamSize := le32 bytes 96
    flags := le32 bytes 100
    reserved := (bytes.drop 104).take 24 }

/-- The check that both readers of a header make, with the room they have for the payload. -/
def Header.Valid (h : Header) (capacity : Nat) : Prop :=
  h.magic = imageMagic ∧ h.headerVersion = imageHeaderVersion ∧
    h.headerSize.toNat = imageHeaderSize ∧ h.payloadSize ≠ 0 ∧ h.payloadSize.toNat ≤ capacity

instance (h : Header) (capacity : Nat) : Decidable (h.Valid capacity) := by
  unfold Header.Valid
  infer_instance

/-- `struct rtbus_image_native_metadata`. -/
structure NativeMetadata where
  entryOffset : UInt32
  dataLoadOffset : UInt32
  dataRamOffset : UInt32
  dataSize : UInt32
  bssRamOffset : UInt32
  bssSize : UInt32
  deriving DecidableEq

/-- The metadata in the reserved bytes of a header. -/
def NativeMetadata.ofBytes (bytes : List UInt8) : NativeMetadata :=
  { entryOffset := le32 bytes 0
    dataLoadOffset := le32 bytes 4
    dataRamOffset := le32 bytes 8
    dataSize := le32 bytes 12
    bssRamOffset := le32 bytes 16
    bssSize := le32 bytes 20 }

/-- `struct rtbus_image_status`. -/
structure Status where
  valid : Bool
  name : List UInt8
  version : List UInt8
  payloadSize : UInt32
  payloadCrc32 : UInt32
  requiredRamSize : UInt32
  flags : UInt32
  deriving DecidableEq

/-- What `memset` leaves of a status. -/
def Status.zero : Status :=
  { valid := false, name := List.replicate imageNameMax 0
    version := List.replicate imageVersionMax 0, payloadSize := 0, payloadCrc32 := 0
    requiredRamSize := 0, flags := 0 }

/-- `strncpy` of at most `n` bytes into a zeroed array of `size` bytes. -/
def strncpy (size n : Nat) (src : List UInt8) : List UInt8 :=
  let s := (src.take n).takeWhile (· ≠ 0)
  s ++ List.replicate (size - s.length) 0

end Rtbus.Image
