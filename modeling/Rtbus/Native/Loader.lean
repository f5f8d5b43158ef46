import Rtbus.Image.Slot
import Rtbus.Native.Service

/-!
# Loading the application

`native_load` asks the image service for the status, the metadata and the data of the image in the
component slot, copies `.data` into application RAM, clears `.bss` there and sets the entry address.
The words of the header and of the metadata are words of 32 bits here too, and differences of them
wrap as they do in the code.
-/

namespace Rtbus.Native

open Rtbus.Image

/-- A board with the addresses of application RAM and of the component slot, `NATIVE_RAM_BASE` and
`NATIVE_FLASH_BASE`. `NATIVE_RAM_SIZE` is `CONFIG_RTBUS_IMAGE_RAM_MAX`, whose range ends at 8192. Both
ranges lie in the address space. -/
structure Machine extends Board where
  ramBase : Nat
  flashBase : Nat
  ramMax_le : imageRamMax ≤ 8192
  ram_lt : ramBase + imageRamMax < 2 ^ 32
  flash_lt : flashBase + slot.size < 2 ^ 32

/-- Pointers have 32 bits. -/
def address (base : Nat) (offset : UInt32) : Nat := (base + offset.toNat) % 2 ^ 32

/-- The ranges that `native_validate_metadata` checks. -/
def MetadataInRange (metadata : NativeMetadata) (payloadSize ramSize : UInt32) : Prop :=
  metadata.entryOffset < payloadSize ∧ metadata.dataLoadOffset ≤ payloadSize ∧
    metadata.dataSize ≤ payloadSize - metadata.dataLoadOffset ∧ metadata.dataRamOffset ≤ ramSize ∧
    metadata.dataSize ≤ ramSize - metadata.dataRamOffset ∧ metadata.bssRamOffset ≤ ramSize ∧
    metadata.bssSize ≤ ramSize - metadata.bssRamOffset

instance (metadata : NativeMetadata) (payloadSize ramSize : UInt32) :
    Decidable (MetadataInRange metadata payloadSize ramSize) := by
  unfold MetadataInRange
  infer_instance

/-- `native_validate_metadata`. -/
def nativeValidateMetadata (m : Machine) (status : Status) (metadata : NativeMetadata) : Ret :=
  if status.flags &&& imageFlagNative = 0 then .err .ENOTSUP
  else if flagsAbiVersion status.flags ≠ apiVersion then .err .EPROTONOSUPPORT
  else if MetadataInRange metadata status.payloadSize (UInt32.ofNat m.imageRamMax) then .ok
  else .err .EINVAL

/-- A step of `native_load` failed. -/
def loadFailed (e : Errno) (f : Flash) (v : Service) : Flash × Service × Ret :=
  (f, { v with lastError := .err e }, .err e)

/-- `native_load`, behind the validation. -/
def nativeLoadData (m : Machine) (metadata : NativeMetadata) (f : Flash) (v : Service) :
    Flash × Service × Ret :=
  let dst := address m.ramBase metadata.dataRamOffset
  match imageReadPayload m.toBoard metadata.dataLoadOffset.toNat metadata.dataSize.toNat f with
  | (f, .err e, data, _) => loadFailed e f { v with ram := v.ram.copy dst data }
  | (f, .ok, data, readSize) =>
    let v := { v with ram := v.ram.copy dst data }
    if readSize ≠ metadata.dataSize.toNat then loadFailed Errno.EIO f v
    else
      let bss := address m.ramBase metadata.bssRamOffset
      let entryAddr := address (m.flashBase + imageHeaderSize) metadata.entryOffset
      (f, { v with
        ram := v.ram.fill bss metadata.bssSize.toNat 0
        entry := some (entryAddr ||| 1)
        lastError := .ok }, .ok)

/-- `native_load`. -/
def nativeLoad (m : Machine) (f : Flash) (v : Service) : Flash × Service × Ret :=
  match imageGetStatus m.toBoard f with
  | (f, .err e, _) => loadFailed e f v
  | (f, .ok, status) =>
    match imageGetNativeMetadata m.toBoard f with
    | (f, .error e) => loadFailed e f v
    | (f, .ok metadata) =>
      match nativeValidateMetadata m status metadata with
      | .err e => loadFailed e f v
      | .ok => nativeLoadData m metadata f v

/-- `native_service_start`. -/
def nativeServiceStartFrom (m : Machine) (f : Flash) (v : Service) : Flash × Service × Ret :=
  if v.patchHandoff then (f, v, .err .EBUSY)
  else if v.threadId then (f, v, .ok)
  else
    match nativeLoad m f v with
    | (f, v, .err e) => (f, { nativeServiceForceStopThread v with lastError := .err e }, .err e)
    | (f, v, .ok) => (f, { v with threadId := true }, .ok)

end Rtbus.Native
