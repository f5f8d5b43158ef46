import Rtbus.Host.Packing
import Rtbus.Host.Storing
import Rtbus.Ymodem.Agreement

/-!
# From the linker map to the running application

The whole way of an application: the packer builds a file from the symbols and the payload, the
uploader and the receiver transfer it over their link, and the service starts what is in the slot.
If the sections are in order, no call of the flash fails and the image has been linked for the board
(`LinkedFor`), every run of the transfer ends with both sides content, and the start loads the
application where it was linked (`deployed`): `.data` holds its initial values, `.bss` is zero, the
code is in flash at its own addresses, the entry address is the one of the map, and nothing else in
RAM has changed.
-/

namespace Rtbus.Host

open Rtbus.Image Rtbus.Native Rtbus.Network Rtbus.Ymodem

/-! ## The store does not change its flash -/

section Fate

variable {b : Board}

/-- A read leaves what becomes of later calls as it is. -/
theorem flashAreaRead_fate (a : AreaId) (off len : Nat) (f : Flash) :
    (flashAreaRead b a off len f).1.fate = f.fate := by
  unfold flashAreaRead
  dsimp only
  split
  · rfl
  · split
    · rfl
    · rfl

/-- So does a write. -/
theorem flashAreaWrite_fate (a : AreaId) (off : Nat) (bytes : List UInt8) (f : Flash) :
    (flashAreaWrite b a off bytes f).1.fate = f.fate := by
  unfold flashAreaWrite
  dsimp only
  split
  · rfl
  · split
    · cases a <;> rfl
    · cases a <;> rfl

/-- So does an erase. -/
theorem flashAreaFlatten_fate (a : AreaId) (f : Flash) :
    (flashAreaFlatten b a f).1.fate = f.fate := by
  unfold flashAreaFlatten
  dsimp only
  split
  · cases a <;> rfl
  · cases a <;> rfl

/-- A call that has returned, in terms of its result. -/
theorem fate_of_flash {α : Type} {x : Flash × α} {f f' : Flash} {r : α} (h : x = (f', r))
    (same : x.1.fate = f.fate) : f'.fate = f.fate := by
  rw [h] at same
  exact same

/-- What is so of a result is so of its parts. -/
theorem fate_of_store {α : Type} {x : Store × α} {s s' : Store} {r : α} (h : x = (s', r))
    (same : x.1.flash.fate = s.flash.fate) : s'.flash.fate = s.flash.fate := by
  rw [h] at same
  exact same

/-- A begin makes calls of the flash, and has no say in their fate. -/
theorem imageStoreBegin_fate (size : Nat) (s : Store) :
    (imageStoreBegin b size s).1.flash.fate = s.flash.fate := by
  unfold imageStoreBegin
  split
  · rfl
  · split
    · rfl
    · split
      · rfl
      · dsimp only
        split
        · rename_i h
          exact fate_of_flash h rfl
        · rename_i h
          have h₁ := fate_of_flash h rfl
          split
          · rename_i h
            exact (fate_of_flash h rfl).trans h₁
          · rename_i h
            have h₂ := (fate_of_flash h rfl).trans h₁
            split
            · exact h₂
            · split
              · exact h₂
              · split
                · rename_i h
                  exact (fate_of_flash h (flashAreaFlatten_fate _ _)).trans h₂
                · rename_i h
                  exact (fate_of_flash h (flashAreaFlatten_fate _ _)).trans h₂

/-- Nor has a flush. -/
theorem imageStoreFlushFlash_fate (final : Bool) (s : Store) :
    (imageStoreFlushFlash b final s).1.flash.fate = s.flash.fate := by
  unfold imageStoreFlushFlash
  split
  · rfl
  · split
    · rfl
    · split
      · rfl
      · split
        · rfl
        · dsimp only
          split
          · rename_i h
            exact fate_of_flash h (flashAreaWrite_fate _ _ _ _)
          · rename_i h
            exact fate_of_flash h (flashAreaWrite_fate _ _ _ _)

theorem storeWriteLoop_fate (turns : Nat) (data : List UInt8) (s : Store) :
    (storeWriteLoop b turns data s).1.flash.fate = s.flash.fate := by
  induction turns generalizing data s with
  | zero => rfl
  | succ turns ih =>
    unfold storeWriteLoop
    split
    · rfl
    · dsimp only
      split
      · rename_i h
        exact fate_of_store h (imageStoreFlushFlash_fate _ _)
      · rename_i h
        exact (ih _ _).trans (fate_of_store h (imageStoreFlushFlash_fate _ _))

/-- Nor has a write of a session. -/
theorem imageStoreWrite_fate (offset : Nat) (data : List UInt8) (s : Store) :
    (imageStoreWrite b offset data s).1.flash.fate = s.flash.fate := by
  have hwrite : (imageStoreWriteFlash b offset data s).1.flash.fate = s.flash.fate := by
    unfold imageStoreWriteFlash
    split
    · rfl
    · exact storeWriteLoop_fate _ _ _
  unfold imageStoreWrite
  split
  · rfl
  · split
    · rfl
    · split
      · rfl
      · split
        · rename_i h
          exact fate_of_store h hwrite
        · rename_i h
          have h₁ := fate_of_store h hwrite
          exact h₁

/-- Nor has a read. -/
theorem imageStoreRead_fate (offset size : Nat) (s : Store) :
    (imageStoreRead b offset size s).1.flash.fate = s.flash.fate := by
  unfold imageStoreRead
  split
  · rfl
  · split
    · rfl
    · split
      · rfl
      · split
        rename_i h
        exact fate_of_flash h (flashAreaRead_fate _ _ _ _)

/-- Nor has the loop over the payload. -/
theorem storePayloadCrcLoop_fate (turns : List (Nat × Nat)) (crc : UInt32) (s : Store) :
    (storePayloadCrcLoop b turns crc s).1.flash.fate = s.flash.fate := by
  induction turns generalizing crc s with
  | nil => rfl
  | cons turn turns ih =>
    unfold storePayloadCrcLoop
    split
    · rename_i h
      exact fate_of_store h (imageStoreRead_fate _ _ _)
    · rename_i h
      exact (ih _ _).trans (fate_of_store h (imageStoreRead_fate _ _ _))

theorem commitLoop_fate (area : AreaId) (turns : List (Nat × Nat)) (f : Flash) :
    (commitLoop b area turns f).1.fate = f.fate := by
  induction turns generalizing f with
  | nil => rfl
  | cons turn turns ih =>
    unfold commitLoop
    split
    · rename_i h
      exact fate_of_flash h (flashAreaRead_fate _ _ _ _)
    · rename_i h
      have h₁ := fate_of_flash h (flashAreaRead_fate _ _ _ _)
      dsimp only
      split
      · rename_i h
        exact (fate_of_flash h (flashAreaWrite_fate _ _ _ _)).trans h₁
      · rename_i h
        exact (ih _).trans ((fate_of_flash h (flashAreaWrite_fate _ _ _ _)).trans h₁)

/-- Nor has the commit, with its erase and its copies. -/
theorem imageCommitStoreToSlot_fate (s : Store) :
    (imageCommitStoreToSlot b s).1.flash.fate = s.flash.fate := by
  unfold imageCommitStoreToSlot
  split
  · rfl
  · split
    · rfl
    · split
      · rfl
      · split
        · rename_i h
          exact fate_of_flash h rfl
        · rename_i h
          have h₁ := fate_of_flash h rfl
          split
          · exact h₁
          · split
            · exact h₁
            · split
              · rename_i h
                exact (fate_of_flash h (flashAreaFlatten_fate _ _)).trans h₁
              · rename_i h
                exact (commitLoop_fate _ _ _).trans
                  ((fate_of_flash h (flashAreaFlatten_fate _ _)).trans h₁)

theorem imageCalculateStorePayloadCrc_fate (payloadSize : UInt32) (s : Store) :
    (imageCalculateStorePayloadCrc b payloadSize s).1.flash.fate = s.flash.fate := by
  unfold imageCalculateStorePayloadCrc
  exact storePayloadCrcLoop_fate _ _ _

/-- Nor have the checks of the finish. -/
theorem imageCheckStore_fate (header : Header) (s : Store) :
    (imageCheckStore b header s).1.flash.fate = s.flash.fate := by
  unfold imageCheckStore
  split
  · rfl
  · split
    · rfl
    · split
      · rename_i h
        exact fate_of_store h (imageCalculateStorePayloadCrc_fate _ _)
      · rename_i h
        have h₁ := fate_of_store h (imageCalculateStorePayloadCrc_fate _ _)
        split
        · exact h₁
        · exact (imageCommitStoreToSlot_fate _).trans h₁

theorem imageReadHeaderFromStore_fate (s : Store) :
    (imageReadHeaderFromStore b s).1.flash.fate = s.flash.fate := by
  obtain ⟨⟨s₁, ret, bytes⟩, hread⟩ : ∃ r, imageStoreRead b 0 imageHeaderSize s = r := ⟨_, rfl⟩
  have h₁ := fate_of_store hread (imageStoreRead_fate _ _ _)
  unfold imageReadHeaderFromStore
  rw [hread]
  cases ret with
  | err e => exact h₁
  | ok =>
    dsimp only
    split
    · exact h₁
    · exact h₁

theorem imageStoreComplete_fate (s : Store) :
    (imageStoreComplete b s).1.flash.fate = s.flash.fate := by
  unfold imageStoreComplete
  split
  · rename_i h
    exact fate_of_store h (imageStoreFlushFlash_fate _ _)
  · rename_i h
    have h₁ := fate_of_store h (imageStoreFlushFlash_fate _ _)
    split
    · rename_i h
      exact (fate_of_store h (imageReadHeaderFromStore_fate _)).trans h₁
    · rename_i h
      exact (imageCheckStore_fate _ _).trans
        ((fate_of_store h (imageReadHeaderFromStore_fate _)).trans h₁)

/-- Nor has the finish, however it ends. -/
theorem imageStoreFinish_fate (status : Ret) (s : Store) :
    (imageStoreFinish b status s).1.flash.fate = s.flash.fate := by
  unfold imageStoreFinish
  split
  · rfl
  · split
    · rfl
    · split
      · rfl
      · split
        rename_i h
        have h₁ := fate_of_store h (imageStoreComplete_fate s)
        exact h₁

/-- Whatever the receiver is asked to do, the flash works as before. -/
theorem receiver_keeps_fate (behind : List UInt8) (fate : Nat → Fate) :
    (receiver b behind).Keeps fun e => e.store.flash.fate = fate := by
  constructor
  · intro o e e' out h hfate
    obtain ⟨s, asks⟩ := e
    cases o with
    | waitHeader =>
      cases asks with
      | nil => cases h
      | cons n asks =>
        cases n with
        | zero => cases h
        | succ n =>
          cases h
          exact hfate
    | _ => cases h
  · intro o e i a e' i' out h hfate
    cases o with
    | serialBegin => cases h
    | flushRx => cases h
    | waitHeader =>
      cases i with
      | nil => cases h
      | cons byte i =>
        cases h
        exact hfate
    | readByte timeoutMs =>
      cases i with
      | nil => cases h
      | cons byte i =>
        cases h
        exact hfate
    | readExact len timeoutMs =>
      change (if i.length < len then none else some (_, _, _, _)) = _ at h
      split at h
      · cases h
      · cases h
        exact hfate
    | put byte =>
      cases h
      exact hfate
    | storeBegin imageSize =>
      cases h
      exact (imageStoreBegin_fate _ _).trans hfate
    | storeWrite offset data =>
      cases h
      exact (imageStoreWrite_fate _ _ _).trans hfate
    | storeFinish status =>
      cases h
      exact (imageStoreFinish_fate _ _).trans hfate

end Fate

/-! ## Loading what is in the slot -/

/-- If no call of the flash fails, an accepted native image of the runtime's ABI version is loaded. -/
theorem nativeLoad_succeeds {m : Machine} {f : Flash} (v : Service) (fine : f.Fine)
    (accepts : Accepts m.toBoard f.slot) (native : (headerOf f.slot).flags &&& imageFlagNative ≠ 0)
    (abi : flagsAbiVersion (headerOf f.slot).flags = apiVersion)
    (range : MetadataInRange (metadataOf f.slot) (headerOf f.slot).payloadSize
      (UInt32.ofNat m.imageRamMax)) :
    ∃ f' v', nativeLoad m f v = (f', v', .ok) ∧ Loads m f.slot v v' := by
  have kind : SlotReads (fun _ => True) m.toBoard := fun _ _ _ => trivial
  obtain ⟨f₁, ret₁, status, hstatus, reads₁, hok₁, hfine₁⟩ := imageGetStatus_spec f kind
  obtain rfl := hfine₁ fine accepts
  obtain ⟨_, hst⟩ := hok₁ rfl
  obtain ⟨f₂, r, hmetadata, reads₂, hmeta, hfine₂⟩ := imageGetNativeMetadata_spec f₁ kind
  rw [reads₁.slot] at hmeta hfine₂
  obtain ⟨metadata, rfl⟩ := hfine₂ (reads₁.fine fine) accepts.1 native
  obtain ⟨_, _, hm⟩ := hmeta metadata rfl
  obtain ⟨f₃, ret₃, bytes, readSize, hread, _, _, hok₃, hfine₃⟩ := imageReadPayload_spec f₂
    metadata.dataLoadOffset.toNat metadata.dataSize.toNat kind
  rw [reads₂.slot, reads₁.slot] at hok₃ hfine₃
  obtain rfl := hfine₃ (reads₂.fine (reads₁.fine fine)) accepts.1
  obtain ⟨_, hsize, _⟩ := hok₃ rfl
  change MetadataInRange (.ofBytes (headerOf f.slot).reserved) _ _ at range
  rw [← hm] at range
  have hfull : readSize = metadata.dataSize.toNat := by
    have hdata := (metadataInRange_iff.mp range).2.1
    omega
  have hvalid : nativeValidateMetadata m status metadata = .ok := by
    have hflags : status.flags = (headerOf f.slot).flags := by rw [hst]; rfl
    have hpayload : status.payloadSize = (headerOf f.slot).payloadSize := by rw [hst]; rfl
    unfold nativeValidateMetadata
    rw [hflags, hpayload, if_neg native, if_neg (not_not.mpr abi), if_pos range]
  have hload : (nativeLoad m f v).2.2 = .ok := by
    unfold nativeLoad
    rw [hstatus]
    dsimp only
    rw [hmetadata]
    dsimp only
    rw [hvalid]
    unfold nativeLoadData
    rw [hread]
    dsimp only
    rw [if_neg (not_not.mpr hfull)]
  obtain ⟨f', v', ret, hres, _, _, hok, _⟩ := nativeLoad_spec f v kind
  rw [hres] at hload
  obtain rfl : ret = .ok := hload
  exact ⟨f', v', hres, hok rfl⟩

/-- Application RAM after a load, byte by byte. -/
theorem ram_of_loads {m : Machine} {slot : Memory} {v v' : Service} (h : Loads m slot v v')
    (x : Nat) : v'.ram x =
      if m.ramBase + (metadataOf slot).bssRamOffset.toNat ≤ x ∧
          x < m.ramBase + (metadataOf slot).bssRamOffset.toNat + (metadataOf slot).bssSize.toNat
        then 0
      else if m.ramBase + (metadataOf slot).dataRamOffset.toNat ≤ x ∧
          x < m.ramBase + (metadataOf slot).dataRamOffset.toNat + (metadataOf slot).dataSize.toNat
        then slot (imageHeaderSize + (metadataOf slot).dataLoadOffset.toNat +
          (x - (m.ramBase + (metadataOf slot).dataRamOffset.toNat)))
      else v.ram x := by
  rw [h.ram]
  unfold Memory.fill
  rw [Memory.copy_slice_apply]

/-! ## The whole way -/

/-- The image has been linked for the board: its code begins behind the header of the slot, its RAM
where application RAM does, and `.data` and `.bss` do not overlap. -/
structure LinkedFor (m : Machine) (symbols : ApplicationSymbols) : Prop where
  flash : symbols.flashStart.toNat = m.flashBase + imageHeaderSize
  ram : symbols.ramStart.toNat = m.ramBase
  apart : symbols.dataEnd ≤ symbols.bssStart ∨ symbols.bssEnd ≤ symbols.dataStart

/-- The application runs where it was linked. Flash addresses are those of the address space, in
which the slot begins at `flashBase`. -/
structure Installed (m : Machine) (symbols : ApplicationSymbols) (payload : List UInt8)
    (slot : Memory) (v v' : Service) : Prop where
  code : ∀ i (h : i < payload.length), slot (symbols.flashStart.toNat + i - m.flashBase) = payload[i]
  data : ∀ i, symbols.dataStart.toNat + i < symbols.dataEnd.toNat →
    payload[symbols.dataLoad.toNat - symbols.flashStart.toNat + i]? =
      some (v'.ram (symbols.dataStart.toNat + i))
  bss : ∀ x, symbols.bssStart.toNat ≤ x → x < symbols.bssEnd.toNat → v'.ram x = 0
  rest : ∀ x, (x < symbols.dataStart.toNat ∨ symbols.dataEnd.toNat ≤ x) →
    (x < symbols.bssStart.toNat ∨ symbols.bssEnd.toNat ≤ x) → v'.ram x = v.ram x
  entry : v'.entry = some (symbols.entry.toNat ||| 1)
  running : v'.threadId = true

section Packed

variable {m : Machine} {symbols : ApplicationSymbols} {name version : CString} {ramSize : UInt32}
  {payload : List UInt8}

/-- The differences of an ordered map, as numbers. -/
theorem packedMetadata_toNat (valid : validateSymbols symbols = some ramSize)
    (ordered : Ordered symbols payload.length) :
    (packedMetadata symbols).entryOffset.toNat = symbols.entry.toNat - symbols.flashStart.toNat ∧
    (packedMetadata symbols).dataLoadOffset.toNat =
      symbols.dataLoad.toNat - symbols.flashStart.toNat ∧
    (packedMetadata symbols).dataRamOffset.toNat =
      symbols.dataStart.toNat - symbols.ramStart.toNat ∧
    (packedMetadata symbols).dataSize.toNat = symbols.dataEnd.toNat - symbols.dataStart.toNat ∧
    (packedMetadata symbols).bssRamOffset.toNat =
      symbols.bssStart.toNat - symbols.ramStart.toNat ∧
    (packedMetadata symbols).bssSize.toNat = symbols.bssEnd.toNat - symbols.bssStart.toNat := by
  obtain ⟨hdata, _, hbss, _⟩ := validateSymbols_eq_some valid
  obtain ⟨hentry, _, hload, hdataEnd, _, hbssEnd⟩ := ordered
  exact ⟨UInt32.toNat_sub_of_le _ _ hentry, UInt32.toNat_sub_of_le _ _ hload,
    UInt32.toNat_sub_of_le _ _ hdata, UInt32.toNat_sub_of_le _ _ hdataEnd,
    UInt32.toNat_sub_of_le _ _ hbss, UInt32.toNat_sub_of_le _ _ hbssEnd⟩

/-- The metadata of an ordered map pass the checks of the loader. -/
theorem packedMetadata_inRange (valid : validateSymbols symbols = some ramSize)
    (ram : ramSize.toNat ≤ m.imageRamMax) (ordered : Ordered symbols payload.length)
    (small : payload.length < 2 ^ 32) :
    MetadataInRange (packedMetadata symbols) (UInt32.ofNat payload.length)
      (UInt32.ofNat m.imageRamMax) := by
  obtain ⟨h1, h2, h3, h4, h5, h6⟩ := packedMetadata_toNat valid ordered
  obtain ⟨hdata, hdataEnd, hbss, hbssEnd, hram, hsize⟩ := validateSymbols_eq_some valid
  obtain ⟨hentry, hentryEnd, hload, hdataLe, hloadEnd, hbssLe⟩ := ordered
  rw [hsize, UInt32.toNat_sub_of_le _ _ hram] at ram
  simp only [UInt32.le_iff_toNat_le] at hdata hdataEnd hbss hbssEnd hram hentry hload hdataLe hbssLe
  rw [metadataInRange_iff, ramMax_toNat, UInt32.toNat_ofNat_of_lt' (by exact small), h1, h2, h3, h4,
    h5, h6]
  exact ⟨by omega, by omega, by omega, by omega⟩

/-- The service starts a packed image that lies in the slot, and installs it. -/
theorem start_installs (crc32 : m.crc32IeeeUpdate = crc32Update)
    (valid : validateSymbols symbols = some ramSize) (ram : ramSize.toNat ≤ m.imageRamMax)
    (ordered : Ordered symbols payload.length) (linked : LinkedFor m symbols)
    (room : (packedFile symbols name version ramSize payload).length ≤ m.slot.size) {f : Flash}
    (fine : f.Fine)
    (stored : f.slot.slice 0 (packedFile symbols name version ramSize payload).length =
      packedFile symbols name version ramSize payload) {v : Service}
    (free : v.patchHandoff = false) (idle : v.threadId = false) :
    ∃ f' v', nativeServiceStartFrom m f v = (f', v', .ok) ∧
      Installed m symbols payload f.slot v v' := by
  have hlen := packedFile_length symbols name version ramSize payload
  have hslot := m.slot.size_lt
  have hroom : imageHeaderSize + payload.length ≤ m.slot.size := hlen ▸ room
  have hpayload : payload.length < 2 ^ 32 := by omega
  have nonempty : payload ≠ [] := by
    obtain ⟨hentry, hentryEnd, _⟩ := ordered
    have := UInt32.le_iff_toNat_le.mp hentry
    exact List.length_pos_iff.mp (by omega)
  obtain ⟨hheader, hbytes⟩ := packed_slices symbols name version ramSize payload stored
  rw [ofBytes_buildHeader] at hheader
  have hmeta : metadataOf f.slot = packedMetadata symbols := by
    unfold metadataOf
    rw [hheader, ofBytes_packedReserved]
  have accepts : Accepts m.toBoard f.slot := by
    obtain ⟨f₁, ret, status, hget, _, hok, _⟩ :=
      imageGetStatus_spec (P := fun _ => True) f (b := m.toBoard) fun _ _ _ => trivial
    have hstatus := (packed_slot crc32 symbols name version ramSize payload nonempty room fine
      stored).1
    rw [hget] at hstatus
    exact (hok (congrArg Prod.fst hstatus)).1
  have range := packedMetadata_inRange (m := m) valid ram ordered hpayload
  obtain ⟨f', v', hload, loads⟩ := nativeLoad_succeeds v fine accepts
    (by rw [hheader]; exact (by decide : flagsMakeNativeAbi apiVersion &&& imageFlagNative ≠ 0))
    (by
      rw [hheader]
      exact (by decide : flagsAbiVersion (flagsMakeNativeAbi apiVersion) = apiVersion))
    (by rw [hmeta, hheader]; exact range)
  refine ⟨f', { v' with threadId := true }, ?_, ?_⟩
  · unfold nativeServiceStartFrom
    rw [if_neg (by rw [free]; simp), if_neg (by rw [idle]; simp), hload]
  have hram := ram_of_loads loads
  have hentry := loads.entry
  obtain ⟨h1, h2, h3, h4, h5, h6⟩ := packedMetadata_toNat valid ordered
  rw [hmeta, h1] at hentry
  simp only [hmeta, h2, h3, h4, h5, h6] at hram
  obtain ⟨hdata, _, hbss, _⟩ := validateSymbols_eq_some valid
  obtain ⟨hentryLe, _, hloadLe, hdataEnd, hloadEnd, hbssEnd⟩ := ordered
  obtain ⟨hflash, hramBase, hapart⟩ := linked
  simp only [UInt32.le_iff_toNat_le] at hdata hbss hentryLe hloadLe hdataEnd hbssEnd hapart
  have hbyte : ∀ i (h : i < payload.length), f.slot (imageHeaderSize + i) = payload[i] := by
    intro i h
    have := congrArg (·[i]?) hbytes
    rw [Memory.getElem?_slice _ h, List.getElem?_eq_getElem h] at this
    exact Option.some.inj this
  refine ⟨fun i h => ?_, fun i h => ?_, fun x lo hi => ?_, fun x hout hout' => ?_, ?_, rfl⟩
  · rw [← hbyte i h]
    exact congrArg f.slot (by omega)
  · have hi : symbols.dataLoad.toNat - symbols.flashStart.toNat + i < payload.length := by omega
    rw [List.getElem?_eq_getElem hi, ← hbyte _ hi]
    show _ = some (v'.ram _)
    rw [hram, if_neg (by omega), if_pos (by omega)]
    exact congrArg (fun x => some (f.slot x)) (by omega)
  · show v'.ram x = 0
    rw [hram, if_pos (by omega)]
  · show v'.ram x = v.ram x
    rw [hram, if_neg (by omega), if_neg (by omega)]
  · show v'.entry = _
    rw [hentry]
    exact congrArg (fun x => some (x ||| 1)) (by omega)

end Packed

/-- For every map that the packer accepts, whose sections are in order and which was linked for the
board: if no call of the flash fails, every run of the upload of the packed file, in whatever order
the two sides move, can be continued to one and the same end, where both have returned 0, and the
service then starts the application where it was linked. -/
theorem deployed (m : Machine) (crc32 : m.crc32IeeeUpdate = crc32Update)
    (geometry : m.toBoard.Geometry) (small : m.slot.size < 2 ^ 32 - 1)
    (symbols : ApplicationSymbols) (name version : CString) (ramSize : UInt32)
    (payload : List UInt8) (valid : validateSymbols symbols = some ramSize)
    (ram : ramSize.toNat ≤ m.imageRamMax) (ordered : Ordered symbols payload.length)
    (linked : LinkedFor m symbols)
    (room : (packedFile symbols name version ramSize payload).length ≤ m.slot.size)
    (staged : (packedFile symbols name version ramSize payload).length ≤
      (m.toBoard.partition m.toBoard.directStoreArea).size)
    (path : List UInt8) (fits : Fits path (packedFile symbols name version ramSize payload))
    (s : Store) (fine : s.flash.Fine) (inactive : s.ctx.active = false) (behind data : List UInt8)
    (asks : Nat) (more : List Nat) :
    ∃ n last, (∀ k c,
        Steps (LinkStep m.toBoard behind (packedFile symbols name version ramSize payload)) k
          (Ymodem.linked path (packedFile symbols name version ramSize payload) data s asks more) c →
        ∃ l, n = k + l ∧
          Steps (LinkStep m.toBoard behind (packedFile symbols name version ramSize payload)) l c
            last) ∧
      Sent last ∧ Received last ∧
      ∀ v : Service, v.patchHandoff = false → v.threadId = false →
        ∃ f' v', nativeServiceStartFrom m last.right.2.store.flash v = (f', v', .ok) ∧
          Installed m symbols payload last.right.2.store.flash.slot v v' := by
  have hlen := packedFile_length symbols name version ramSize payload
  have nonempty : payload ≠ [] := by
    obtain ⟨hentry, hentryEnd, _⟩ := ordered
    have := UInt32.le_iff_toNat_le.mp hentry
    exact List.length_pos_iff.mp (by omega)
  have storable : Storable m.toBoard (packedFile symbols name version ramSize payload) :=
    ⟨by omega, room, staged, packed_accepted symbols name version ramSize payload crc32 nonempty
      ram (by omega)⟩
  obtain ⟨last, ⟨n, hrun⟩, stuck, agreed⟩ :=
    reaches_end geometry small fine inactive path _ behind data asks more
  have diamond : Diamond (LinkStep m.toBoard behind
      (packedFile symbols name version ramSize payload)) :=
    step_diamond (Agent.party_monotone (uploader_monotone _))
      (Agent.party_monotone (receiver_monotone m.toBoard behind))
  have sent := agreed.accepted fits storable
  obtain ⟨stored, _, hslot, hfile⟩ := agreed.stored sent
  rw [hfile fits] at hslot
  have fate : last.right.2.store.flash.fate = s.flash.fate :=
    (receiver_keeps_fate behind s.flash.fate).steps_right hrun rfl
  have fine' : last.right.2.store.flash.Fine := by
    unfold Flash.Fine
    rw [fate]
    exact fine
  exact ⟨n, last, fun k c run => hrun.every_run diamond stuck run, sent, agreed.both.mp sent,
    fun v free idle => start_installs crc32 valid ram ordered linked room fine' hslot free idle⟩

theorem sampleMachine_geometry : sampleMachine.toBoard.Geometry :=
  ⟨by decide, by decide, by decide, by decide, by decide, by decide, by decide⟩

theorem sample_linked : LinkedFor sampleMachine (sampleSymbols 0x20035004) :=
  ⟨by decide, by decide, .inl (by decide)⟩

/-- The sample application is uploaded from a file named `a`, and started. -/
theorem sample_deployed : ∃ (last : Link) (f' : Flash) (v' : Service), Sent last ∧ Received last ∧
    nativeServiceStartFrom sampleMachine last.right.2.store.flash Service.boot = (f', v', .ok) ∧
    Installed sampleMachine (sampleSymbols 0x20035004) [1, 2, 3, 4, 5, 6, 7, 8]
      last.right.2.store.flash.slot Service.boot v' := by
  have hlen := packedFile_length (sampleSymbols 0x20035004) ⟨[97, 98], by decide⟩ ⟨[49], by decide⟩
    0x400 [1, 2, 3, 4, 5, 6, 7, 8]
  have fits : Fits [0x61] (packedFile (sampleSymbols 0x20035004) ⟨[97, 98], by decide⟩
      ⟨[49], by decide⟩ 0x400 [1, 2, 3, 4, 5, 6, 7, 8]) :=
    ⟨by decide, by rw [hlen]; decide +kernel⟩
  obtain ⟨_, last, _, sent, received, starts⟩ := deployed sampleMachine rfl sampleMachine_geometry
    (by decide) (sampleSymbols 0x20035004) _ _ 0x400 [1, 2, 3, 4, 5, 6, 7, 8] (by decide)
    (by decide) (by decide) sample_linked (by rw [hlen]; decide) (by rw [hlen]; decide) [0x61] fits
    smallStore (fun _ => rfl) rfl [] [] 3 []
  obtain ⟨f', v', hstart, installed⟩ := starts Service.boot rfl rfl
  exact ⟨last, f', v', sent, received, hstart, installed⟩

end Rtbus.Host
