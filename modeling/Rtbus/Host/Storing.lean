import Rtbus.Host.Header
import Rtbus.Image.Finish

/-!
# What is packed is read back

The packer and the image service share no code. Whatever chunks a packed file is stored in, the
store accepts it, directly or staged, and the three readers of the component slot return what was
packed. `crc32_ieee_update` of the operating system is taken to compute what `crc32_update` of the
packer does.
-/

namespace Rtbus.Host

open Rtbus.Image

/-! ## The CRC in pieces -/

theorem not_not_uint32 (x : UInt32) : ~~~(~~~x) = x := by
  refine UInt32.toBitVec_inj.mp ?_
  simp

/-- The CRC of a payload may be computed in pieces. -/
theorem crc32Update_append (crc : UInt32) (a c : List UInt8) :
    crc32Update crc (a ++ c) = crc32Update (crc32Update crc a) c := by
  unfold crc32Update
  rw [List.foldl_append, not_not_uint32]

theorem crc32Update_nil (crc : UInt32) : crc32Update crc [] = crc := not_not_uint32 crc

/-- The CRC that the image service computes in blocks is the one of the whole payload. -/
theorem blockwiseCrc_eq {b : Board} (crc32 : b.crc32IeeeUpdate = crc32Update) (m : Memory)
    (size : Nat) : blockwiseCrc b m size = crc32Update 0 (m.slice imageHeaderSize size) := by
  have key : ∀ off turns, BlocksFrom size off turns →
      turns.foldl (fun crc turn =>
        b.crc32IeeeUpdate crc (m.slice (imageHeaderSize + turn.1) turn.2))
        (crc32Update 0 (m.slice imageHeaderSize off)) =
      crc32Update 0 (m.slice imageHeaderSize size) := by
    intro off turns from_
    induction from_ with
    | done => rfl
    | turn inside block _ ih =>
      simp only [crc32] at ih ⊢
      rw [List.foldl_cons, ← crc32Update_append, ← Memory.slice_add]
      exact ih
  have := key 0 (blocks size) (blocks_from size)
  rwa [show m.slice imageHeaderSize 0 = [] from rfl, crc32Update_nil] at this

/-! ## The image as it is packed -/

section Packed

variable (symbols : ApplicationSymbols) (name version : CString) (ramSize : UInt32)
  (payload : List UInt8)

theorem packedFile_length :
    (packedFile symbols name version ramSize payload).length = imageHeaderSize + payload.length := by
  unfold packedFile componentFile
  rw [List.length_append, buildHeader_length]
  rfl

/-- A memory that starts with a packed file holds its header and its payload. -/
theorem packed_slices {m : Memory}
    (h : m.slice 0 (packedFile symbols name version ramSize payload).length =
      packedFile symbols name version ramSize payload) :
    headerOf m = Header.ofBytes (buildHeader symbols name version ramSize
      (UInt32.ofNat payload.length) (crc32Update 0 payload)) ∧
      m.slice imageHeaderSize payload.length = payload := by
  unfold packedFile componentFile at h
  obtain ⟨hheader, hpayload⟩ := slice_of_append h
  rw [buildHeader_length] at hheader hpayload
  rw [Nat.zero_add] at hpayload
  exact ⟨congrArg Header.ofBytes hheader, hpayload⟩

/-- The store accepts what is packed. -/
theorem packed_accepted {b : Board} (crc32 : b.crc32IeeeUpdate = crc32Update)
    (nonempty : payload ≠ []) (small : ramSize.toNat ≤ b.imageRamMax)
    (fits : (packedFile symbols name version ramSize payload).length < 2 ^ 32) :
    AcceptsFile b (packedFile symbols name version ramSize payload) := by
  have hlen := packedFile_length symbols name version ramSize payload
  have hpos := List.length_pos_iff.mpr nonempty
  have hsize : (UInt32.ofNat payload.length).toNat = payload.length :=
    UInt32.toNat_ofNat_of_lt' (by show payload.length < 2 ^ 32; omega)
  obtain ⟨hheader, hpayload⟩ := packed_slices symbols name version ramSize payload
    (fileMemory_slice (packedFile symbols name version ramSize payload))
  unfold AcceptsFile
  rw [hheader, ofBytes_buildHeader, blockwiseCrc_eq crc32]
  refine ⟨⟨rfl, rfl, rfl, fun h => ?_, ?_⟩, small, ?_⟩
  · have := congrArg UInt32.toNat h
    rw [hsize] at this
    exact absurd this (by show payload.length ≠ 0; omega)
  · dsimp only
    rw [hsize, hlen]
    omega
  · dsimp only
    rw [hsize, hpayload]

end Packed

/-- `strncpy` of a fixed string leaves it as it is. -/
theorem strncpy_fixedString {size : Nat} (pos : 0 < size) (value : CString) :
    strncpy size (size - 1) (fixedString size value) = fixedString size value := by
  unfold strncpy fixedString
  dsimp only
  generalize hlen : (if value.bytes.length ≥ size then size - 1 else value.bytes.length) = len
  have hle : len ≤ size - 1 ∧ len ≤ value.bytes.length := by
    split at hlen
    · omega
    · omega
  have htake : (value.bytes.take len).length = len := by
    rw [List.length_take]
    omega
  have hzero : ∀ x ∈ value.bytes.take len, decide (x ≠ 0) = true := by
    intro x hx
    refine decide_eq_true fun h => value.nonzero ?_
    rw [← h]
    exact List.mem_of_mem_take hx
  have hstop : ((value.bytes.take len ++ List.replicate (size - len) 0).take (size - 1)).takeWhile
      (· ≠ 0) = value.bytes.take len := by
    rw [List.take_append, List.take_of_length_le (by omega), List.takeWhile_append_of_pos hzero,
      List.take_replicate]
    cases min (size - 1 - (value.bytes.take len).length) (size - len) with
    | zero => simp
    | succ n => simp [List.replicate_succ]
  rw [hstop, htake]

/-- What a slot with a packed file answers to the three readers. -/
theorem packed_slot {b : Board} (crc32 : b.crc32IeeeUpdate = crc32Update) (symbols : ApplicationSymbols)
    (name version : CString) (ramSize : UInt32) (payload : List UInt8) (nonempty : payload ≠ [])
    (fits : (packedFile symbols name version ramSize payload).length ≤ b.slot.size) {f : Flash}
    (fine : f.Fine)
    (stored : f.slot.slice 0 (packedFile symbols name version ramSize payload).length =
      packedFile symbols name version ramSize payload) :
    (imageGetStatus b f).2 = (.ok,
      { valid := true, name := fixedString 64 name, version := fixedString 16 version
        payloadSize := UInt32.ofNat payload.length, payloadCrc32 := crc32Update 0 payload
        requiredRamSize := ramSize, flags := flagsMakeNativeAbi apiVersion }) ∧
      (imageGetNativeMetadata b f).2 = .ok (packedMetadata symbols) ∧
      ∀ o n, (imageReadPayload b o n f).2 =
        (.ok, (payload.drop o).take n, min n (payload.length - o)) := by
  have hlen := packedFile_length symbols name version ramSize payload
  have hpos := List.length_pos_iff.mpr nonempty
  have hlt := b.slot.size_lt
  have hsize : (UInt32.ofNat payload.length).toNat = payload.length :=
    UInt32.toNat_ofNat_of_lt' (by show payload.length < 2 ^ 32; omega)
  obtain ⟨hheader, hpayload⟩ := packed_slices symbols name version ramSize payload stored
  rw [ofBytes_buildHeader] at hheader
  have hcapacity : imagePayloadCapacity b .slot = b.slot.size - imageHeaderSize := by
    unfold imagePayloadCapacity
    exact if_neg (by show ¬ b.slot.size ≤ imageHeaderSize; omega)
  have valid : (headerOf f.slot).Valid (imagePayloadCapacity b .slot) := by
    rw [hheader, hcapacity]
    refine ⟨rfl, rfl, rfl, fun h => ?_, ?_⟩
    · have := congrArg UInt32.toNat h
      rw [hsize] at this
      exact absurd this (by show payload.length ≠ 0; omega)
    · dsimp only
      rw [hsize]
      omega
  have accepts : Accepts b f.slot := by
    refine ⟨valid, ?_⟩
    rw [blockwiseCrc_eq crc32, hheader]
    dsimp only
    rw [hsize, hpayload]
  have kind : SlotReads (fun _ => True) b := fun _ _ _ => trivial
  refine ⟨?_, ?_, fun o n => ?_⟩
  · obtain ⟨f', ret, status, hget, _, hok, hfine⟩ := imageGetStatus_spec f kind
    obtain rfl := hfine fine accepts
    obtain ⟨_, rfl⟩ := hok rfl
    rw [hget, hheader]
    unfold Header.status
    rw [show imageNameMax = 64 from rfl, show imageVersionMax = 16 from rfl,
      strncpy_fixedString (by decide) name, strncpy_fixedString (by decide) version,
      decide_eq_true rfl]
  · obtain ⟨f', r, hget, _, hok, hfine⟩ := imageGetNativeMetadata_spec f kind
    have native : flagsMakeNativeAbi apiVersion &&& imageFlagNative ≠ 0 := by decide
    obtain ⟨metadata, rfl⟩ := hfine fine valid (by rw [hheader]; exact native)
    obtain ⟨_, _, rfl⟩ := hok metadata rfl
    rw [hget, hheader, ofBytes_packedReserved]
  · obtain ⟨f', ret, data, readSize, hread, _, _, hok, hfine⟩ := imageReadPayload_spec f o n kind
    obtain rfl := hfine fine valid
    obtain ⟨_, hread_size, hdata⟩ := hok rfl
    rw [hheader] at hread_size
    dsimp only at hread_size
    rw [hsize] at hread_size
    subst hread_size
    rw [hread, hdata]
    refine Prod.ext rfl (Prod.ext ?_ rfl)
    -- the bytes of the slot behind the header are the payload
    refine List.ext_getElem? fun i => ?_
    by_cases hi : i < min n (payload.length - o)
    · rw [Memory.getElem?_slice _ hi, List.getElem?_take, if_pos (by omega), List.getElem?_drop]
      have := congrArg (fun l : List UInt8 => l[o + i]?) hpayload
      simp only [Memory.getElem?_slice _ (show o + i < payload.length by omega)] at this
      rw [← this, Nat.add_assoc]
    · rw [List.getElem?_eq_none (by rw [Memory.slice_length]; omega),
        List.getElem?_eq_none (by rw [List.length_take, List.length_drop]; omega)]

/-- A packed file that fits in the slot is accepted by the store in chunks of any sizes, both
directly and staged, and then read back from the slot as it was packed. The session opens if the
partition that the file is stored into has room for it. -/
theorem packed_read_back (b : Board) (crc32 : b.crc32IeeeUpdate = crc32Update)
    (geometry : b.Geometry) (symbols : ApplicationSymbols) (name version : CString)
    (ramSize : UInt32) (payload : List UInt8) (nonempty : payload ≠ [])
    (small : ramSize.toNat ≤ b.imageRamMax)
    (fits : (packedFile symbols name version ramSize payload).length ≤ b.slot.size)
    (chunks : List (List UInt8))
    (split : chunks.flatten = packedFile symbols name version ramSize payload)
    (s : Store) (inactive : s.ctx.active = false) (fine : s.flash.Fine) :
    ((packedFile symbols name version ramSize payload).length ≤
        (b.partition b.directStoreArea).size →
      ∃ s₁, imageStoreBegin b (packedFile symbols name version ramSize payload).length s = (s₁, .ok)) ∧
    ∀ s₁, imageStoreBegin b (packedFile symbols name version ramSize payload).length s = (s₁, .ok) →
      ∃ s₂ s₃, imageStoreChunks b 0 chunks s₁ = some s₂ ∧ imageStoreFinish b .ok s₂ = (s₃, .ok) ∧
        (imageGetStatus b s₃.flash).2 = (.ok,
          { valid := true, name := fixedString 64 name, version := fixedString 16 version
            payloadSize := UInt32.ofNat payload.length, payloadCrc32 := crc32Update 0 payload
            requiredRamSize := ramSize, flags := flagsMakeNativeAbi apiVersion }) ∧
        (imageGetNativeMetadata b s₃.flash).2 = .ok (packedMetadata symbols) ∧
        ∀ o n, (imageReadPayload b o n s₃.flash).2 =
          (.ok, (payload.drop o).take n, min n (payload.length - o)) := by
  have hlt := b.slot.size_lt
  have accepts := packed_accepted symbols name version ramSize payload crc32 nonempty small
    (Nat.lt_of_le_of_lt fits hlt)
  have hheader : imageHeaderSize ≤ (packedFile symbols name version ramSize payload).length := by
    rw [packedFile_length]
    omega
  obtain ⟨s₁', ret, hbegin, changes, hok, _, hfine⟩ := imageStoreBegin_spec (b := b)
    (packedFile symbols name version ramSize payload).length inactive
  constructor
  · intro room
    obtain rfl := hfine fine geometry hheader fits room
    exact ⟨s₁', hbegin⟩
  · intro s₁ h
    rw [hbegin] at h
    cases h
    have session := hok rfl
    obtain ⟨s₂, hchunks, fine₂⟩ := imageStoreChunks_fine session
      (changes.fine fine) geometry (by rw [split, List.length_nil, Nat.zero_add])
    have session₂ := imageStoreChunks_some session hchunks
    rw [List.nil_append, split] at session₂
    obtain ⟨s₃, ret, hfinish, _, fate, hok₃, hfine₃⟩ := imageStoreFinish_spec session₂ .ok
    obtain rfl := hfine₃ fine₂ geometry rfl rfl accepts
    obtain ⟨_, _, _, hslot, _⟩ := hok₃ rfl
    refine ⟨s₂, s₃, hchunks, hfinish, packed_slot crc32 symbols name version ramSize payload
      nonempty fits ?_ hslot⟩
    unfold Flash.Fine
    rw [fate]
    exact fine₂

theorem smallSlot_lt : 512 < 2 ^ 32 := by decide

/-- A board without a `patch_partition`, with a slot of 512 bytes and a buffer of 64. -/
def smallBoard : Board :=
  { slot := ⟨512, 4, smallSlot_lt⟩, patch := none, flashPendingMax := 64, imageRamMax := 0x400
    crc32IeeeUpdate := crc32Update }

theorem smallBoard_geometry : smallBoard.Geometry :=
  ⟨by decide, by decide, by decide, by decide, by decide, by decide, by decide⟩

/-- The store at rest, with a flash that does not fail. -/
def smallStore : Store :=
  { ctx := .zero
    flash :=
      { slot := fun _ => 0, patch := fun _ => 0, fate := fun _ => ⟨.ok, fun _ => 0⟩, calls := 0
        log := [] } }

theorem smallVersion_string : 0 ∉ [(49 : UInt8)] := by decide

/-- A small application with a payload of three bytes. -/
def smallFile : List UInt8 :=
  packedFile ⟨1, 1, 1, 1, 1, 1, 1, 1, 1, 0x401⟩ ⟨[97], by decide⟩ ⟨[49], smallVersion_string⟩
    0x400 [1, 2, 3]

/-- It is stored in one chunk and its payload is read back. -/
theorem small_read_back : ∃ s₁ s₂ s₃,
    imageStoreBegin smallBoard smallFile.length smallStore = (s₁, .ok) ∧
      imageStoreChunks smallBoard 0 [smallFile] s₁ = some s₂ ∧
      imageStoreFinish smallBoard .ok s₂ = (s₃, .ok) ∧
      (imageReadPayload smallBoard 1 5 s₃.flash).2 = (.ok, [2, 3], 2) := by
  have hlen : smallFile.length = imageHeaderSize + 3 := packedFile_length ..
  obtain ⟨opens, rest⟩ := packed_read_back smallBoard rfl smallBoard_geometry
    ⟨1, 1, 1, 1, 1, 1, 1, 1, 1, 0x401⟩ ⟨[97], by decide⟩ ⟨[49], by decide⟩ 0x400 [1, 2, 3]
    (by decide) (by decide) (by show smallFile.length ≤ 512; rw [hlen]; decide) [smallFile]
    List.flatten_singleton smallStore rfl (fun _ => rfl)
  obtain ⟨s₁, hbegin⟩ := opens (by show smallFile.length ≤ 512; rw [hlen]; decide)
  obtain ⟨s₂, s₃, hchunks, hfinish, _, _, hread⟩ := rest s₁ hbegin
  exact ⟨s₁, s₂, s₃, hbegin, hchunks, hfinish, hread 1 5⟩

end Rtbus.Host
