import Rtbus.Image.Flash
import Rtbus.Image.Header

/-!
# Reading the component slot

`rtbus_image_get_status`, `rtbus_image_get_native_metadata` and `rtbus_image_read_payload` each read
the header of the component slot anew. `Accepts` is what `rtbus_image_get_status` checks, said of
the bytes in the slot.
-/

namespace Rtbus.Image

variable (b : Board)

/-- `rtbus_image_payload_capacity`. -/
def imagePayloadCapacity (a : AreaId) : Nat :=
  if (b.partition a).size ≤ imageHeaderSize then 0 else (b.partition a).size - imageHeaderSize

/-- `rtbus_image_read_header_from_area`. -/
def imageReadHeaderFromArea (a : AreaId) (f : Flash) : Flash × Except Errno Header :=
  match flashAreaRead b a 0 imageHeaderSize f with
  | (f, .err e, _) => (f, .error e)
  | (f, .ok, bytes) =>
    let header := Header.ofBytes bytes
    if header.Valid (imagePayloadCapacity b a) then (f, .ok header) else (f, .error .ENODATA)

/-- The loop of `rtbus_image_calculate_payload_crc`. -/
def payloadCrcLoop (a : AreaId) : List (Nat × Nat) → UInt32 → Flash → Flash × Except Errno UInt32
  | [], crc, f => (f, .ok crc)
  | (offset, readLen) :: turns, crc, f =>
    match flashAreaRead b a (imageHeaderSize + offset) readLen f with
    | (f, .err e, _) => (f, .error e)
    | (f, .ok, buf) => payloadCrcLoop a turns (b.crc32IeeeUpdate crc buf) f

/-- `rtbus_image_calculate_payload_crc`. -/
def imageCalculatePayloadCrc (a : AreaId) (payloadSize : UInt32) (f : Flash) :
    Flash × Except Errno UInt32 :=
  payloadCrcLoop b a (blocks payloadSize.toNat) 0 f

/-- The status that `rtbus_image_get_status` fills in for a header and the CRC of the payload. -/
def Header.status (header : Header) (crc : UInt32) : Status :=
  { valid := crc = header.payloadCrc32
    name := strncpy imageNameMax (imageNameMax - 1) header.name
    version := strncpy imageVersionMax (imageVersionMax - 1) header.version
    payloadSize := header.payloadSize
    payloadCrc32 := header.payloadCrc32
    requiredRamSize := header.requiredRamSize
    flags := header.flags }

/-- The return code that goes with a status. -/
def Status.ret (status : Status) : Ret := if status.valid then .ok else .err .EBADMSG

/-- The status tells whether the CRC is that of the header. -/
theorem Header.status_ret (header : Header) (crc : UInt32) :
    (header.status crc).ret = if crc = header.payloadCrc32 then .ok else .err .EBADMSG := by
  unfold Status.ret Header.status
  by_cases h : crc = header.payloadCrc32
  · rw [if_pos h, if_pos (decide_eq_true h)]
  · rw [if_neg h, if_neg fun hd => h (of_decide_eq_true hd)]

/-- `rtbus_image_get_status`, behind the reading of the header. -/
def imageCheckPayload (header : Header) (f : Flash) : Flash × Ret × Status :=
  match imageCalculatePayloadCrc b .slot header.payloadSize f with
  | (f, .error e) => (f, .err e, .zero)
  | (f, .ok crc) => (f, (header.status crc).ret, header.status crc)

/-- `rtbus_image_get_status`. -/
def imageGetStatus (f : Flash) : Flash × Ret × Status :=
  match f.ask with
  | (f, .err e) => (f, .err e, .zero)
  | (f, .ok) =>
    match imageReadHeaderFromArea b .slot f with
    | (f, .error e) => (f, .err e, .zero)
    | (f, .ok header) => imageCheckPayload b header f

/-- `rtbus_image_get_native_metadata`. -/
def imageGetNativeMetadata (f : Flash) : Flash × Except Errno NativeMetadata :=
  match f.ask with
  | (f, .err e) => (f, .error e)
  | (f, .ok) =>
    match imageReadHeaderFromArea b .slot f with
    | (f, .error e) => (f, .error e)
    | (f, .ok header) =>
      if header.flags &&& imageFlagNative = 0 then (f, .error .ENOTSUP)
      else (f, .ok (.ofBytes header.reserved))

/-- `rtbus_image_read_payload`, with what it leaves in the buffer and `read_size`. -/
def imageReadPayload (offset size : Nat) (f : Flash) : Flash × Ret × List UInt8 × Nat :=
  match f.ask with
  | (f, .err e) => (f, .err e, [], 0)
  | (f, .ok) =>
    match imageReadHeaderFromArea b .slot f with
    | (f, .error e) => (f, .err e, [], 0)
    | (f, .ok header) =>
      if offset ≥ header.payloadSize.toNat then (f, .ok, [], 0)
      else
        let len := min size (header.payloadSize.toNat - offset)
        match flashAreaRead b .slot (imageHeaderSize + offset) len f with
        | (f, .err e, data) => (f, .err e, data, 0)
        | (f, .ok, data) => (f, .ok, data, len)

/-- The CRC of a payload that is read in blocks of 128 bytes. -/
def blockwiseCrc (m : Memory) (size : Nat) : UInt32 :=
  (blocks size).foldl (fun crc turn =>
    b.crc32IeeeUpdate crc (m.slice (imageHeaderSize + turn.1) turn.2)) 0

/-- The header that lies at the start of a partition. -/
def headerOf (m : Memory) : Header := Header.ofBytes (m.slice 0 imageHeaderSize)

/-- A slot with these bytes holds an image with a valid header and the CRC that it states. -/
def Accepts (m : Memory) : Prop :=
  (headerOf m).Valid (imagePayloadCapacity b .slot) ∧
    blockwiseCrc b m (headerOf m).payloadSize.toNat = (headerOf m).payloadCrc32

instance (m : Memory) : Decidable (Accepts b m) := by
  unfold Accepts
  infer_instance

variable {b}

/-! ## What the functions return -/

section Spec

variable {P : Access → Prop} (f : Flash)

/-- A header that is read is the one in the partition, and passes its checks. -/
theorem imageReadHeaderFromArea_spec (a : AreaId) (kind : P (.read a 0 imageHeaderSize)) :
    ∃ f' r, imageReadHeaderFromArea b a f = (f', r) ∧ f.Reads P f' ∧
      (∀ h, r = .ok h → h = headerOf (f.area a) ∧ h.Valid (imagePayloadCapacity b a)) ∧
      (f.Fine → (headerOf (f.area a)).Valid (imagePayloadCapacity b a) →
        r = .ok (headerOf (f.area a))) := by
  obtain ⟨f', ret, bytes, hread, reads, _, hok, hfine⟩ := flashAreaRead_spec b a 0 _ f kind
  unfold imageReadHeaderFromArea
  rw [hread]
  cases ret with
  | err e =>
    refine ⟨f', _, rfl, reads, fun h hr => (by cases hr), fun fine valid => ?_⟩
    have hroom : 0 + imageHeaderSize ≤ (b.partition a).size := by
      obtain ⟨_, _, _, hne, hle⟩ := valid
      have hpos : (headerOf (f.area a)).payloadSize.toNat ≠ 0 := fun h0 => hne (UInt32.toNat_inj.mp h0)
      unfold imagePayloadCapacity at hle
      split at hle
      · omega
      · omega
    cases hfine fine hroom
  | ok =>
    obtain ⟨_, rfl⟩ := hok rfl
    dsimp only
    by_cases valid : (headerOf (f.area a)).Valid (imagePayloadCapacity b a)
    · refine ⟨f', .ok (headerOf (f.area a)), ?_, reads, fun h hr => ?_, fun _ _ => rfl⟩
      · exact if_pos valid
      · cases hr
        exact ⟨rfl, valid⟩
    · refine ⟨f', .error .ENODATA, ?_, reads, fun h hr => (by cases hr), fun _ h => absurd h valid⟩
      exact if_neg valid

/-- The loop reads the payload in its turns, and computes the CRC over them. -/
theorem payloadCrcLoop_spec (a : AreaId) (turns : List (Nat × Nat)) (crc : UInt32)
    (kind : ∀ turn ∈ turns, P (.read a (imageHeaderSize + turn.1) turn.2)) :
    ∃ f' r, payloadCrcLoop b a turns crc f = (f', r) ∧ f.Reads P f' ∧
      (∀ c, r = .ok c → c = turns.foldl (fun crc turn =>
        b.crc32IeeeUpdate crc ((f.area a).slice (imageHeaderSize + turn.1) turn.2)) crc) ∧
      (f.Fine → (∀ turn ∈ turns, imageHeaderSize + turn.1 + turn.2 ≤ (b.partition a).size) →
        ∃ c, r = .ok c) := by
  induction turns generalizing crc f with
  | nil =>
    refine ⟨f, .ok crc, rfl, ⟨rfl, rfl, rfl, [], (List.append_nil _).symm, by simp⟩, fun c hc => ?_,
      fun _ _ => ⟨crc, rfl⟩⟩
    cases hc
    rfl
  | cons turn turns ih =>
    obtain ⟨f₁, ret, buf, hread, reads, _, hok, hfine⟩ := flashAreaRead_spec b a
      (imageHeaderSize + turn.1) turn.2 f (kind turn (List.mem_cons_self ..))
    unfold payloadCrcLoop
    rw [hread]
    cases ret with
    | err e =>
      refine ⟨f₁, _, rfl, reads, fun c hc => (by cases hc), fun fine room => ?_⟩
      cases hfine fine (room turn (List.mem_cons_self ..))
    | ok =>
      obtain ⟨_, rfl⟩ := hok rfl
      obtain ⟨f₂, r, hloop, reads₂, hcrc, hsome⟩ := ih f₁ (b.crc32IeeeUpdate crc
        ((f.area a).slice (imageHeaderSize + turn.1) turn.2))
        fun t ht => kind t (List.mem_cons_of_mem _ ht)
      refine ⟨f₂, r, hloop, reads.trans reads₂, fun c hc => ?_, fun fine room => ?_⟩
      · rw [hcrc c hc, reads.area]
        rfl
      · exact hsome (reads.fine fine) fun t ht => room t (List.mem_cons_of_mem _ ht)

/-- So the CRC is that over the blocks of the payload. -/
theorem imageCalculatePayloadCrc_spec (a : AreaId) (payloadSize : UInt32)
    (kind : ∀ turn ∈ blocks payloadSize.toNat, P (.read a (imageHeaderSize + turn.1) turn.2)) :
    ∃ f' r, imageCalculatePayloadCrc b a payloadSize f = (f', r) ∧ f.Reads P f' ∧
      (∀ c, r = .ok c → c = blockwiseCrc b (f.area a) payloadSize.toNat) ∧
      (f.Fine → imageHeaderSize + payloadSize.toNat ≤ (b.partition a).size → ∃ c, r = .ok c) := by
  obtain ⟨f', r, hloop, reads, hcrc, hsome⟩ := payloadCrcLoop_spec (b := b) f a
    (blocks payloadSize.toNat) 0 kind
  refine ⟨f', r, hloop, reads, hcrc, fun fine room => hsome fine fun turn ht => ?_⟩
  have := mem_blocks ht
  omega

/-- Reads of the slot, as far as it goes or in its header. -/
def SlotReads (P : Access → Prop) (b : Board) : Prop :=
  ∀ off len, off + len ≤ max imageHeaderSize b.slot.size → P (.read .slot off len)

/-- The header is among what a reader reads. -/
theorem SlotReads.header {b : Board} (kind : SlotReads P b) : P (.read .slot 0 imageHeaderSize) :=
  kind _ _ (by omega)

/-- The payload of a valid header lies in the partition. -/
theorem Header.Valid.room {h : Header} {a : AreaId} (valid : h.Valid (imagePayloadCapacity b a)) :
    imageHeaderSize + h.payloadSize.toNat ≤ (b.partition a).size := by
  obtain ⟨_, _, _, hne, hle⟩ := valid
  have hpos : h.payloadSize.toNat ≠ 0 := fun h0 => hne (UInt32.toNat_inj.mp h0)
  unfold imagePayloadCapacity at hle
  split at hle
  · omega
  · omega

/-- The check of the payload compares that CRC with the one in the header. -/
theorem imageCheckPayload_spec (kind : SlotReads P b) (header : Header)
    (valid : header.Valid (imagePayloadCapacity b .slot)) : ∃ f' ret status,
    imageCheckPayload b header f = (f', ret, status) ∧ f.Reads P f' ∧
      (ret = .ok → blockwiseCrc b f.slot header.payloadSize.toNat = header.payloadCrc32 ∧
        status = header.status header.payloadCrc32) ∧
      (f.Fine → blockwiseCrc b f.slot header.payloadSize.toNat = header.payloadCrc32 →
        ret = .ok) := by
  have hroom := valid.room
  obtain ⟨f', r, hloop, reads, hcrc, hsome⟩ := imageCalculatePayloadCrc_spec (b := b) f .slot
    header.payloadSize fun turn ht => kind _ _ (by
      have := mem_blocks ht
      have : (b.partition .slot).size = b.slot.size := rfl
      omega)
  unfold imageCheckPayload
  rw [hloop]
  cases r with
  | error e =>
    refine ⟨f', _, _, rfl, reads, fun h => (by cases h), fun fine _ => ?_⟩
    obtain ⟨c, hc⟩ := hsome fine hroom
    cases hc
  | ok crc =>
    have hcrc : crc = blockwiseCrc b f.slot header.payloadSize.toNat := hcrc crc rfl
    refine ⟨f', _, _, rfl, reads, fun h => ?_, fun _ hmatch => ?_⟩
    · rw [Header.status_ret] at h
      by_cases hmatch : crc = header.payloadCrc32
      · exact ⟨hcrc.symm.trans hmatch, by rw [hmatch]⟩
      · rw [if_neg hmatch] at h
        cases h
    · rw [Header.status_ret, if_pos (hcrc.trans hmatch)]

/-- How a reader of the slot gets to its header: the slot does not open, or the header is not valid,
or it is read. -/
theorem slotHeader_cases (kind : SlotReads P b) :
    (∃ f₁ e, f.ask = (f₁, .err e) ∧ f.Reads P f₁ ∧ ¬ f.Fine) ∨
    (∃ f₁ f₂ e, f.ask = (f₁, .ok) ∧ imageReadHeaderFromArea b .slot f₁ = (f₂, .error e) ∧
      f.Reads P f₂ ∧ (f.Fine → ¬ (headerOf f.slot).Valid (imagePayloadCapacity b .slot))) ∨
    (∃ f₁ f₂, f.ask = (f₁, .ok) ∧
      imageReadHeaderFromArea b .slot f₁ = (f₂, .ok (headerOf f.slot)) ∧ f.Reads P f₂ ∧
      (headerOf f.slot).Valid (imagePayloadCapacity b .slot)) := by
  have reads := Flash.reads_ask P f
  cases hask : f.ask with
  | mk f₁ ret =>
    rw [hask] at reads
    cases ret with
    | err e =>
      refine .inl ⟨f₁, e, rfl, reads, fun fine => ?_⟩
      rw [fine.ask] at hask
      cases hask
    | ok =>
      obtain ⟨f₂, r, hheader, reads₂, hok, hfine⟩ :=
        imageReadHeaderFromArea_spec (b := b) f₁ .slot kind.header
      have hslot : f₁.area .slot = f.slot := reads.slot
      rw [hslot] at hok hfine
      cases r with
      | error e =>
        refine .inr (.inl ⟨f₁, f₂, e, rfl, hheader, reads.trans reads₂, fun fine valid => ?_⟩)
        cases hfine (reads.fine fine) valid
      | ok header =>
        obtain ⟨rfl, valid⟩ := hok header rfl
        exact .inr (.inr ⟨f₁, f₂, rfl, hheader, reads.trans reads₂, valid⟩)

/-- The status is 0 only for an image that the slot holds, and always for one if no read fails. -/
theorem imageGetStatus_spec (kind : SlotReads P b) : ∃ f' ret status,
    imageGetStatus b f = (f', ret, status) ∧ f.Reads P f' ∧
      (ret = .ok → Accepts b f.slot ∧
        status = (headerOf f.slot).status (headerOf f.slot).payloadCrc32) ∧
      (f.Fine → Accepts b f.slot → ret = .ok) := by
  unfold imageGetStatus
  rcases slotHeader_cases f kind with ⟨f₁, e, hask, reads, failed⟩ |
    ⟨f₁, f₂, e, hask, hheader, reads, invalid⟩ | ⟨f₁, f₂, hask, hheader, reads, valid⟩ <;>
    rw [hask]
  · exact ⟨f₁, _, _, rfl, reads, fun h => (by cases h), fun fine => absurd fine failed⟩
  · dsimp only
    rw [hheader]
    exact ⟨f₂, _, _, rfl, reads, fun h => (by cases h),
      fun fine accepts => absurd accepts.1 (invalid fine)⟩
  · obtain ⟨f₃, ret, status, hcheck, reads₃, hret, hfine⟩ :=
      imageCheckPayload_spec f₂ kind (headerOf f.slot) valid
    rw [reads.slot] at hret hfine
    dsimp only
    rw [hheader]
    refine ⟨f₃, ret, status, hcheck, reads.trans reads₃, fun h => ?_,
      fun fine accepts => hfine (reads.fine fine) accepts.2⟩
    obtain ⟨hmatch, hstatus⟩ := hret h
    exact ⟨⟨valid, hmatch⟩, hstatus⟩

/-- The metadata is that of a valid header with the native flag. -/
theorem imageGetNativeMetadata_spec (kind : SlotReads P b) : ∃ f' r,
    imageGetNativeMetadata b f = (f', r) ∧ f.Reads P f' ∧
      (∀ m, r = .ok m → (headerOf f.slot).Valid (imagePayloadCapacity b .slot) ∧
        (headerOf f.slot).flags &&& imageFlagNative ≠ 0 ∧
        m = .ofBytes (headerOf f.slot).reserved) ∧
      (f.Fine → (headerOf f.slot).Valid (imagePayloadCapacity b .slot) →
        (headerOf f.slot).flags &&& imageFlagNative ≠ 0 → ∃ m, r = .ok m) := by
  unfold imageGetNativeMetadata
  rcases slotHeader_cases f kind with ⟨f₁, e, hask, reads, failed⟩ |
    ⟨f₁, f₂, e, hask, hheader, reads, invalid⟩ | ⟨f₁, f₂, hask, hheader, reads, valid⟩ <;>
    rw [hask]
  · exact ⟨f₁, _, rfl, reads, fun m h => (by cases h), fun fine => absurd fine failed⟩
  · dsimp only
    rw [hheader]
    exact ⟨f₂, _, rfl, reads, fun m h => (by cases h),
      fun fine valid => absurd valid (invalid fine)⟩
  · dsimp only
    rw [hheader]
    dsimp only
    by_cases hflag : (headerOf f.slot).flags &&& imageFlagNative = 0
    · rw [if_pos hflag]
      exact ⟨f₂, _, rfl, reads, fun m h => (by cases h), fun _ _ hne => absurd hflag hne⟩
    · rw [if_neg hflag]
      refine ⟨f₂, _, rfl, reads, fun m h => ?_, fun _ _ _ => ⟨_, rfl⟩⟩
      cases h
      exact ⟨valid, hflag, rfl⟩

/-- What is read of a payload are its bytes. -/
theorem imageReadPayload_spec (offset size : Nat) (kind : SlotReads P b) :
    ∃ f' ret data readSize, imageReadPayload b offset size f = (f', ret, data, readSize) ∧
      f.Reads P f' ∧ data.length ≤ size ∧
      (ret = .ok → (headerOf f.slot).Valid (imagePayloadCapacity b .slot) ∧
        readSize = min size ((headerOf f.slot).payloadSize.toNat - offset) ∧
        data = f.slot.slice (imageHeaderSize + offset) readSize) ∧
      (f.Fine → (headerOf f.slot).Valid (imagePayloadCapacity b .slot) → ret = .ok) := by
  unfold imageReadPayload
  rcases slotHeader_cases f kind with ⟨f₁, e, hask, reads, failed⟩ |
    ⟨f₁, f₂, e, hask, hheader, reads, invalid⟩ | ⟨f₁, f₂, hask, hheader, reads, valid⟩ <;>
    rw [hask]
  · exact ⟨f₁, _, _, _, rfl, reads, Nat.zero_le _, fun h => (by cases h),
      fun fine => absurd fine failed⟩
  · dsimp only
    rw [hheader]
    exact ⟨f₂, _, _, _, rfl, reads, Nat.zero_le _, fun h => (by cases h),
      fun fine valid => absurd valid (invalid fine)⟩
  · have hroom := valid.room
    have hsize : (b.partition .slot).size = b.slot.size := rfl
    dsimp only
    rw [hheader]
    dsimp only
    by_cases hend : offset ≥ (headerOf f.slot).payloadSize.toNat
    · rw [if_pos hend]
      refine ⟨f₂, _, _, _, rfl, reads, Nat.zero_le _, fun _ => ⟨valid, ?_, rfl⟩, fun _ _ => rfl⟩
      omega
    · rw [if_neg hend]
      obtain ⟨f₃, ret, data, hread, reads₃, hlen, hdata, hfine⟩ := flashAreaRead_spec b .slot
        (imageHeaderSize + offset) (min size ((headerOf f.slot).payloadSize.toNat - offset)) f₂
        (kind _ _ (by omega))
      have hslot : f₂.area .slot = f.slot := reads.area .slot
      rw [hslot] at hdata
      rw [hread]
      cases ret with
      | err e =>
        refine ⟨f₃, _, _, _, rfl, reads.trans reads₃, by omega, fun h => (by cases h),
          fun fine _ => ?_⟩
        cases hfine (reads.fine fine) (by omega)
      | ok =>
        exact ⟨f₃, _, _, _, rfl, reads.trans reads₃, by omega,
          fun _ => ⟨valid, rfl, (hdata rfl).2⟩, fun _ _ => rfl⟩

end Spec

end Rtbus.Image
