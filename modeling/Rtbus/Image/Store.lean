import Rtbus.Image.Slot

/-!
# The image store

A session of the image store is opened by `rtbus_image_store_begin`, which erases the partition that
the image is stored into, fed by `rtbus_image_store_write`, and closed by
`rtbus_image_store_finish`, whatever the outcome. Bytes are gathered in `flash_pending` and written
when the buffer is full, and at the end. An image that passes the checks of the finish is copied
into the component slot if it was staged elsewhere; an image that was stored into the slot directly
is there already.

`flashPending` holds the bytes of the buffer that are in use. `memset` overwrites the others before
they are written.
-/

namespace Rtbus.Image

/-- `struct rtbus_image_store_context`. -/
structure StoreContext where
  flashArea : Option AreaId
  flashWriteOffset : Nat
  flashAlign : Nat
  flashPending : List UInt8
  expectedSize : Nat
  written : Nat
  active : Bool

/-- What `memset` leaves of the context. -/
def StoreContext.zero : StoreContext :=
  { flashArea := none, flashWriteOffset := 0, flashAlign := 0, flashPending := [], expectedSize := 0
    written := 0, active := false }

/-- `store_ctx` and the flash. -/
structure Store where
  ctx : StoreContext
  flash : Flash

/-- `rtbus_image_store_reset`. -/
def Store.reset (s : Store) : Store := { s with ctx := .zero }

variable (b : Board)

/-- `rtbus_image_store_begin`. -/
def imageStoreBegin (imageSize : Nat) (s : Store) : Store × Ret :=
  if imageSize < imageHeaderSize then (s, .err .EINVAL)
  else if s.ctx.active then (s, .err .EBUSY)
  else if imageSize > b.slot.size then (s.reset, .err .EFBIG)
  else
    let area := b.directStoreArea
    match s.flash.ask with
    | (f, .err e) => (⟨.zero, f⟩, .err e)
    | (f, .ok) =>
      -- `device_is_ready`
      match f.ask with
      | (f, .err _) => (⟨.zero, f⟩, .err .ENODEV)
      | (f, .ok) =>
        let align := (b.partition area).align
        if imageSize > (b.partition area).size then (⟨.zero, f⟩, .err .EFBIG)
        else if align = 0 ∨ align > b.flashPendingMax then (⟨.zero, f⟩, .err .EINVAL)
        else
          match flashAreaFlatten b area f with
          | (f, .err e) => (⟨.zero, f⟩, .err e)
          | (f, .ok) =>
            (⟨{ StoreContext.zero with
                flashArea := some area
                flashAlign := align
                expectedSize := imageSize
                active := true }, f⟩, .ok)

/-- `rtbus_image_store_flush_flash`. -/
def imageStoreFlushFlash (final : Bool) (s : Store) : Store × Ret :=
  match s.ctx.flashArea with
  | none => (s, .err .EINVAL)
  | some area =>
    if s.ctx.flashAlign = 0 ∨ s.ctx.flashAlign > b.flashPendingMax ∨
        b.flashPendingMax % s.ctx.flashAlign ≠ 0 then
      (s, .err .EINVAL)
    else if s.ctx.flashPending.length = 0 then (s, .ok)
    else if final = false ∧ s.ctx.flashPending.length < b.flashPendingMax then (s, .ok)
    else
      let writeLen :=
        if final then roundUp s.ctx.flashPending.length s.ctx.flashAlign else b.flashPendingMax
      let pad := List.replicate (writeLen - s.ctx.flashPending.length) 0xff
      match flashAreaWrite b area s.ctx.flashWriteOffset (s.ctx.flashPending ++ pad) s.flash with
      | (f, .err e) => ({ s with flash := f }, .err e)
      | (f, .ok) =>
        (⟨{ s.ctx with
            flashWriteOffset := s.ctx.flashWriteOffset + writeLen
            flashPending := [] }, f⟩, .ok)

/-- The loop of `rtbus_image_store_write_flash`, for a number of turns that is enough
(`storeWriteLoop_enough`). -/
def storeWriteLoop : Nat → List UInt8 → Store → Store × Ret
  | 0, _, s => (s, .ok)
  | turns + 1, data, s =>
    if data = [] then (s, .ok)
    else
      let copyLen := min data.length (b.flashPendingMax - s.ctx.flashPending.length)
      let pending := s.ctx.flashPending ++ data.take copyLen
      match imageStoreFlushFlash b false { s with ctx := { s.ctx with flashPending := pending } } with
      | (s, .err e) => (s, .err e)
      | (s, .ok) => storeWriteLoop turns (data.drop copyLen) s

/-- `rtbus_image_store_write_flash`. -/
def imageStoreWriteFlash (offset : Nat) (data : List UInt8) (s : Store) : Store × Ret :=
  if s.ctx.flashArea = none ∨ offset ≠ s.ctx.written then (s, .err .EINVAL)
  else storeWriteLoop b (data.length + 2) data s

/-- `rtbus_image_store_write`. -/
def imageStoreWrite (offset : Nat) (data : List UInt8) (s : Store) : Store × Ret :=
  if s.ctx.active = false then (s, .err .EINVAL)
  else if offset ≠ s.ctx.written then (s, .err .EINVAL)
  else if data.length > s.ctx.expectedSize - s.ctx.written then (s, .err .EFBIG)
  else
    match imageStoreWriteFlash b offset data s with
    | (s, .err e) => (s, .err e)
    | (s, .ok) => ({ s with ctx := { s.ctx with written := s.ctx.written + data.length } }, .ok)

/-- `rtbus_image_store_read`. -/
def imageStoreRead (offset size : Nat) (s : Store) : Store × Ret × List UInt8 :=
  if offset > s.ctx.written ∨ size > s.ctx.written - offset then (s, .err .EINVAL, [])
  else
    match s.ctx.flashArea with
    | none => (s, .err .EINVAL, [])
    | some area =>
      if offset > (b.partition area).size ∨ size > (b.partition area).size - offset then
        (s, .err .EINVAL, [])
      else
        match flashAreaRead b area offset size s.flash with
        | (f, ret, bytes) => ({ s with flash := f }, ret, bytes)

/-- `rtbus_image_read_header_from_store`. -/
def imageReadHeaderFromStore (s : Store) : Store × Except Errno Header :=
  match imageStoreRead b 0 imageHeaderSize s with
  | (s, .err _, _) => (s, .error .ENODATA)
  | (s, .ok, bytes) =>
    let header := Header.ofBytes bytes
    if header.Valid (s.ctx.expectedSize - imageHeaderSize) then (s, .ok header)
    else (s, .error .ENODATA)

/-- The loop of `rtbus_image_calculate_store_payload_crc`. -/
def storePayloadCrcLoop : List (Nat × Nat) → UInt32 → Store → Store × Except Errno UInt32
  | [], crc, s => (s, .ok crc)
  | (offset, readLen) :: turns, crc, s =>
    match imageStoreRead b (imageHeaderSize + offset) readLen s with
    | (s, .err e, _) => (s, .error e)
    | (s, .ok, buf) => storePayloadCrcLoop turns (b.crc32IeeeUpdate crc buf) s

/-- `rtbus_image_calculate_store_payload_crc`. -/
def imageCalculateStorePayloadCrc (payloadSize : UInt32) (s : Store) : Store × Except Errno UInt32 :=
  storePayloadCrcLoop b (blocks payloadSize.toNat) 0 s

/-- The loop of `rtbus_image_commit_store_to_slot`. -/
def commitLoop (area : AreaId) : List (Nat × Nat) → Flash → Flash × Ret
  | [], f => (f, .ok)
  | (offset, readLen) :: turns, f =>
    match flashAreaRead b area offset readLen f with
    | (f, .err e, _) => (f, .err e)
    | (f, .ok, buf) =>
      let pad := List.replicate (roundUp readLen b.slot.align - readLen) 0xff
      match flashAreaWrite b .slot offset (buf ++ pad) f with
      | (f, .err e) => (f, .err e)
      | (f, .ok) => commitLoop area turns f

/-- `rtbus_image_commit_store_to_slot`. -/
def imageCommitStoreToSlot (s : Store) : Store × Ret :=
  match s.ctx.flashArea with
  | none => (s, .err .EINVAL)
  | some area =>
    if s.ctx.written ≠ s.ctx.expectedSize then (s, .err .EINVAL)
    else if area = .slot then (s, .ok)
    else
      match s.flash.ask with
      | (f, .err e) => ({ s with flash := f }, .err e)
      | (f, .ok) =>
        if s.ctx.expectedSize > b.slot.size then ({ s with flash := f }, .err .EFBIG)
        else if b.slot.align = 0 ∨ b.slot.align > 128 then ({ s with flash := f }, .err .EINVAL)
        else
          match flashAreaFlatten b .slot f with
          | (f, .err e) => ({ s with flash := f }, .err e)
          | (f, .ok) =>
            match commitLoop b area (blocks s.ctx.expectedSize) f with
            | (f, ret) => ({ s with flash := f }, ret)

/-- `rtbus_image_store_finish`, behind the reading of the header. -/
def imageCheckStore (header : Header) (s : Store) : Store × Ret :=
  if header.payloadSize.toNat > s.ctx.expectedSize - imageHeaderSize then (s, .err .EBADMSG)
  else if header.requiredRamSize.toNat > b.imageRamMax then (s, .err .ENOMEM)
  else
    match imageCalculateStorePayloadCrc b header.payloadSize s with
    | (s, .error e) => (s, .err e)
    | (s, .ok crc) =>
      if crc ≠ header.payloadCrc32 then (s, .err .EBADMSG) else imageCommitStoreToSlot b s

/-- `rtbus_image_store_finish` for a status that is zero, up to the reset. -/
def imageStoreComplete (s : Store) : Store × Ret :=
  match imageStoreFlushFlash b true s with
  | (s, .err e) => (s, .err e)
  | (s, .ok) =>
    match imageReadHeaderFromStore b s with
    | (s, .error e) => (s, .err e)
    | (s, .ok header) => imageCheckStore b header s

/-- `rtbus_image_store_finish`. -/
def imageStoreFinish (status : Ret) (s : Store) : Store × Ret :=
  if s.ctx.active = false then (s, .err .EINVAL)
  else
    match status with
    | .err e => (s.reset, .err e)
    | .ok =>
      if s.ctx.written ≠ s.ctx.expectedSize then (s.reset, .err Errno.EIO)
      else
        match imageStoreComplete b s with
        | (s, ret) => (s.reset, ret)

end Rtbus.Image
