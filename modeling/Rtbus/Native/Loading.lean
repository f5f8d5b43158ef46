import Rtbus.Host.Header
import Rtbus.Native.Loader

/-!
# What a load does

`Loads` is the outcome of a `native_load` that returns 0: the slot holds an accepted native image of
the ABI version of the runtime, its ranges are in range, and application RAM and the entry address
are what the metadata says. `nativeLoad_spec` says that this is the only way to return 0 and what
happens otherwise.

The loader writes `.data` and clears `.bss` afterwards. It checks both ranges against application
RAM but not against each other, so `.data` arrives intact if and only if all its bytes that lie in
`.bss` are zero.
-/

namespace Rtbus.Native

open Rtbus.Image

/-- The metadata of the image in a slot. -/
def metadataOf (slot : Memory) : NativeMetadata := .ofBytes (headerOf slot).reserved

/-- A load that returns 0. -/
structure Loads (m : Machine) (slot : Memory) (v v' : Service) : Prop where
  accepts : Accepts m.toBoard slot
  native : (headerOf slot).flags &&& imageFlagNative ≠ 0
  abi : flagsAbiVersion (headerOf slot).flags = apiVersion
  inRange : MetadataInRange (metadataOf slot) (headerOf slot).payloadSize
    (UInt32.ofNat m.imageRamMax)
  ram : v'.ram = (v.ram.copy (m.ramBase + (metadataOf slot).dataRamOffset.toNat)
    (slot.slice (imageHeaderSize + (metadataOf slot).dataLoadOffset.toNat)
      (metadataOf slot).dataSize.toNat)).fill
    (m.ramBase + (metadataOf slot).bssRamOffset.toNat) (metadataOf slot).bssSize.toNat 0
  entry : v'.entry =
    some ((m.flashBase + imageHeaderSize + (metadataOf slot).entryOffset.toNat) ||| 1)

/-- The ranges without wrapping differences. -/
theorem metadataInRange_iff {metadata : NativeMetadata} {payloadSize ramSize : UInt32} :
    MetadataInRange metadata payloadSize ramSize ↔
      metadata.entryOffset.toNat < payloadSize.toNat ∧
      metadata.dataLoadOffset.toNat + metadata.dataSize.toNat ≤ payloadSize.toNat ∧
      metadata.dataRamOffset.toNat + metadata.dataSize.toNat ≤ ramSize.toNat ∧
      metadata.bssRamOffset.toNat + metadata.bssSize.toNat ≤ ramSize.toNat := by
  have within : ∀ off size limit : UInt32, off ≤ limit ∧ size ≤ limit - off ↔
      off.toNat + size.toNat ≤ limit.toNat := by
    intro off size limit
    simp only [UInt32.le_iff_toNat_le]
    constructor
    · rintro ⟨hoff, hsize⟩
      rw [UInt32.toNat_sub_of_le _ _ (UInt32.le_iff_toNat_le.mpr hoff)] at hsize
      omega
    · intro h
      have hoff : off.toNat ≤ limit.toNat := by omega
      rw [UInt32.toNat_sub_of_le _ _ (UInt32.le_iff_toNat_le.mpr hoff)]
      omega
  unfold MetadataInRange
  rw [UInt32.lt_iff_toNat_lt, ← within, ← within, ← within]
  simp only [and_assoc]

theorem ramMax_toNat (m : Machine) : (UInt32.ofNat m.imageRamMax).toNat = m.imageRamMax :=
  UInt32.toNat_ofNat_of_lt' (Nat.lt_of_le_of_lt m.ramMax_le (by decide))

theorem nativeValidateMetadata_eq_ok {m : Machine} {status : Status} {metadata : NativeMetadata}
    (h : nativeValidateMetadata m status metadata = .ok) :
    status.flags &&& imageFlagNative ≠ 0 ∧ flagsAbiVersion status.flags = apiVersion ∧
      MetadataInRange metadata status.payloadSize (UInt32.ofNat m.imageRamMax) := by
  unfold nativeValidateMetadata at h
  split at h
  · cases h
  · rename_i hnative
    split at h
    · cases h
    · rename_i habi
      split at h
      · rename_i hrange
        exact ⟨hnative, Decidable.not_not.mp habi, hrange⟩
      · cases h

/-- What a failed load leaves: an entry address as before and the code of the failure. -/
def LoadFails (v v' : Service) (ret : Ret) : Prop := v'.entry = v.entry ∧ v'.lastError = ret

section Spec

variable {m : Machine} {P : Access → Prop} (f : Flash) (v : Service)

theorem nativeLoadData_spec (kind : SlotReads P m.toBoard) (metadata : NativeMetadata)
    {payloadSize : UInt32} (range : MetadataInRange metadata payloadSize (UInt32.ofNat m.imageRamMax))
    (room : imageHeaderSize + payloadSize.toNat ≤ m.slot.size) :
    ∃ f' v' ret, nativeLoadData m metadata f v = (f', v', ret) ∧ f.Reads P f' ∧
      v.ram.AgreeOff v'.ram m.ramBase (m.ramBase + m.imageRamMax) ∧
      (ret = .ok →
        v'.ram = (v.ram.copy (m.ramBase + metadata.dataRamOffset.toNat)
          (f.slot.slice (imageHeaderSize + metadata.dataLoadOffset.toNat)
            metadata.dataSize.toNat)).fill
          (m.ramBase + metadata.bssRamOffset.toNat) metadata.bssSize.toNat 0 ∧
        v'.entry = some ((m.flashBase + imageHeaderSize + metadata.entryOffset.toNat) ||| 1)) ∧
      (ret ≠ .ok → LoadFails v v' ret) := by
  obtain ⟨hentry, hload, hdata, hbss⟩ := metadataInRange_iff.mp range
  rw [ramMax_toNat] at hdata hbss
  have hram := m.ram_lt
  have hflash := m.flash_lt
  have hdst : address m.ramBase metadata.dataRamOffset =
      m.ramBase + metadata.dataRamOffset.toNat := Nat.mod_eq_of_lt (by omega)
  have hbssAddr : address m.ramBase metadata.bssRamOffset =
      m.ramBase + metadata.bssRamOffset.toNat := Nat.mod_eq_of_lt (by omega)
  have hentryAddr : address (m.flashBase + imageHeaderSize) metadata.entryOffset =
      m.flashBase + imageHeaderSize + metadata.entryOffset.toNat := Nat.mod_eq_of_lt (by omega)
  obtain ⟨f', ret, data, readSize, hread, reads, hlen, hok, _⟩ := imageReadPayload_spec f
    metadata.dataLoadOffset.toNat metadata.dataSize.toNat kind
  have copied : v.ram.AgreeOff (v.ram.copy (m.ramBase + metadata.dataRamOffset.toNat) data)
      m.ramBase (m.ramBase + m.imageRamMax) :=
    (Memory.copy_agreeOff _ _ _).widen (by omega) (by omega)
  unfold nativeLoadData
  rw [hread, hdst, hbssAddr, hentryAddr]
  cases ret with
  | err e => exact ⟨f', _, _, rfl, reads, copied, fun h => (by cases h), fun _ => ⟨rfl, rfl⟩⟩
  | ok =>
    obtain ⟨_, hsize, hdata'⟩ := hok rfl
    by_cases hfull : readSize = metadata.dataSize.toNat
    · refine ⟨f', _, _, if_neg fun h => h hfull, reads, ?_, fun _ => ⟨?_, rfl⟩,
        fun h => absurd rfl h⟩
      · exact copied.trans ((Memory.fill_agreeOff _ _ _ _).widen (by omega) (by omega))
      · rw [hdata', hfull]
    · exact ⟨f', _, _, if_pos hfull, reads, copied, fun h => (by cases h), fun _ => ⟨rfl, rfl⟩⟩

/-- What `native_load` does. -/
theorem nativeLoad_spec (kind : SlotReads P m.toBoard) :
    ∃ f' v' ret, nativeLoad m f v = (f', v', ret) ∧ f.Reads P f' ∧
      v.ram.AgreeOff v'.ram m.ramBase (m.ramBase + m.imageRamMax) ∧
      (ret = .ok → Loads m f.slot v v') ∧ (ret ≠ .ok → LoadFails v v' ret) := by
  have failed : ∀ (f' : Flash) (e : Errno), f.Reads P f' →
      ∃ f'' v' ret, loadFailed e f' v = (f'', v', ret) ∧ f.Reads P f'' ∧
        v.ram.AgreeOff v'.ram m.ramBase (m.ramBase + m.imageRamMax) ∧
        (ret = .ok → Loads m f.slot v v') ∧ (ret ≠ .ok → LoadFails v v' ret) :=
    fun f' e reads => ⟨f', _, _, rfl, reads, .refl _ _ _, fun h => (by cases h), fun _ => ⟨rfl, rfl⟩⟩
  obtain ⟨f₁, ret, status, hstatus, reads₁, hok, _⟩ := imageGetStatus_spec f kind
  unfold nativeLoad
  rw [hstatus]
  cases ret with
  | err e => exact failed f₁ e reads₁
  | ok =>
    obtain ⟨accepts, hst⟩ := hok rfl
    obtain ⟨f₂, r, hmetadata, reads₂, hmeta, _⟩ := imageGetNativeMetadata_spec f₁ kind
    have reads := reads₁.trans reads₂
    rw [reads₁.slot] at hmeta
    dsimp only
    rw [hmetadata]
    cases r with
    | error e => exact failed f₂ e reads
    | ok metadata =>
      obtain ⟨valid, hnative, hm⟩ := hmeta metadata rfl
      dsimp only
      cases hvalid : nativeValidateMetadata m status metadata with
      | err e => exact failed f₂ e reads
      | ok =>
        obtain ⟨_, habi, hrange⟩ := nativeValidateMetadata_eq_ok hvalid
        have hflags : status.flags = (headerOf f.slot).flags := by rw [hst]; rfl
        have hsize : status.payloadSize = (headerOf f.slot).payloadSize := by rw [hst]; rfl
        rw [hflags] at habi
        rw [hsize] at hrange
        obtain ⟨f₃, v', ret, hload, reads₃, hram, hdone, hfail⟩ :=
          nativeLoadData_spec f₂ v kind metadata hrange valid.room
        rw [reads.slot] at hdone
        refine ⟨f₃, v', ret, hload, reads.trans reads₃, hram, fun h => ?_, hfail⟩
        obtain ⟨hram, hentry⟩ := hdone h
        subst hm
        exact ⟨accepts, hnative, habi, hrange, hram, hentry⟩

end Spec

/-! ## Safety -/

/-- No sum or difference of header and metadata words wraps on the way to a return of 0. -/
structure NoWrapOnLoad (m : Machine) (header : Header) (metadata : NativeMetadata) : Prop where
  payloadEnd : imageHeaderSize + header.payloadSize.toNat < 2 ^ 32
  dataLoad : metadata.dataLoadOffset ≤ header.payloadSize
  dataEnd : imageHeaderSize + metadata.dataLoadOffset.toNat + metadata.dataSize.toNat < 2 ^ 32
  dataRam : metadata.dataRamOffset.toNat ≤ m.imageRamMax
  dataRamEnd : m.ramBase + metadata.dataRamOffset.toNat + metadata.dataSize.toNat < 2 ^ 32
  bssRam : metadata.bssRamOffset.toNat ≤ m.imageRamMax
  bssRamEnd : m.ramBase + metadata.bssRamOffset.toNat + metadata.bssSize.toNat < 2 ^ 32
  entryAddr : m.flashBase + imageHeaderSize + metadata.entryOffset.toNat < 2 ^ 32

/-- What holds when `native_load` returns 0. -/
structure Checked (m : Machine) (slot : Memory) (entry : Option Nat) : Prop where
  valid : (headerOf slot).Valid (m.slot.size - imageHeaderSize)
  crc : blockwiseCrc m.toBoard slot (headerOf slot).payloadSize.toNat = (headerOf slot).payloadCrc32
  native : (headerOf slot).flags &&& imageFlagNative ≠ 0
  abi : flagsAbiVersion (headerOf slot).flags = apiVersion
  entry : ∃ addr, entry = some (addr ||| 1) ∧ m.flashBase + imageHeaderSize ≤ addr ∧
    addr < m.flashBase + imageHeaderSize + (headerOf slot).payloadSize.toNat
  noWrap : NoWrapOnLoad m (headerOf slot) (metadataOf slot)

theorem Loads.checked {m : Machine} {slot : Memory} {v v' : Service}
    (room : imageHeaderSize < m.slot.size) (h : Loads m slot v v') : Checked m slot v'.entry := by
  obtain ⟨accepts, native, abi, range, _, entry⟩ := h
  obtain ⟨hentry, hload, hdata, hbss⟩ := metadataInRange_iff.mp range
  rw [ramMax_toNat] at hdata hbss
  have hcapacity : imagePayloadCapacity m.toBoard .slot = m.slot.size - imageHeaderSize :=
    if_neg (Nat.not_le.mpr room)
  have hroom := accepts.1.room
  have hsize : (m.toBoard.partition .slot).size = m.slot.size := rfl
  have hslot := m.slot.size_lt
  have hram := m.ram_lt
  have hflash := m.flash_lt
  refine ⟨hcapacity ▸ accepts.1, accepts.2, native, abi, ⟨_, entry, by omega, by omega⟩, ?_⟩
  exact ⟨by omega, UInt32.le_iff_toNat_le.mpr (by omega), by omega, by omega, by omega, by omega,
    by omega, by omega⟩

/-- For every contents of the slot and every pattern of flash failures, the loader writes to
application RAM only and reads within the slot; if it returns 0, everything was checked, and if it
fails, the entry address is as before and the error is recorded. -/
theorem nativeLoad_safe (m : Machine) (room : imageHeaderSize < m.slot.size) (f : Flash)
    (v : Service) : ∀ f' v' ret, nativeLoad m f v = (f', v', ret) →
      v.ram.AgreeOff v'.ram m.ramBase (m.ramBase + m.imageRamMax) ∧
      (∃ reads, f'.log = f.log ++ reads ∧ ∀ x ∈ reads,
        ∃ off len, x = .read .slot off len ∧ off + len ≤ m.slot.size) ∧
      (ret = .ok → Checked m f.slot v'.entry) ∧
      (ret ≠ .ok → v'.entry = v.entry ∧ v'.lastError = ret) := by
  intro f' v' ret h
  have kind : SlotReads (fun x => ∃ off len, x = .read .slot off len ∧ off + len ≤ m.slot.size)
      m.toBoard := by
    intro off len hle
    exact ⟨off, len, rfl, by omega⟩
  obtain ⟨_, _, _, hload, reads, hram, hok, hfail⟩ := nativeLoad_spec f v kind
  rw [h] at hload
  cases hload
  exact ⟨hram, reads.log, fun hret => (hok hret).checked room, hfail⟩

/-- A board with a slot of 40 KiB at `0xec000` and 8 KiB of application RAM at `0x20035000`. -/
def sampleMachine : Machine :=
  { slot := ⟨0xa000, 4, by decide⟩
    patch := none
    flashPendingMax := 256
    imageRamMax := 8192
    crc32IeeeUpdate := Host.crc32Update
    ramBase := 0x20035000
    flashBase := 0xec000
    ramMax_le := by decide
    ram_lt := by decide
    flash_lt := by decide }

/-- The symbols of an application with 4 bytes of `.data`, and `.bss` from an address on. -/
def sampleSymbols (bssStart : UInt32) : Host.ApplicationSymbols :=
  { slotStart := 0xec000, flashStart := 0xec080, entry := 0xec080, dataLoad := 0xec084
    dataStart := 0x20035000, dataEnd := 0x20035004, bssStart := bssStart, bssEnd := 0x20035010
    ramStart := 0x20035000, ramEnd := 0x20035400 }

/-- Flash with a packed file of 8 bytes of payload at the start of the slot. -/
def sampleFlash (symbols : Host.ApplicationSymbols) : Flash :=
  { slot := Memory.copy (fun _ => 0xff) 0 (Host.packedFile symbols ⟨[97, 98], by decide⟩
      ⟨[49], by decide⟩ 0x400 [1, 2, 3, 4, 5, 6, 7, 8])
    patch := fun _ => 0xff
    fate := fun _ => ⟨.ok, fun _ => 0⟩
    calls := 0
    log := [] }

theorem sample_loads : (nativeLoad sampleMachine (sampleFlash (sampleSymbols 0x20035004))
    Service.boot).2.2 = .ok := by
  decide +kernel

/-- A load that returns 0, as an equation. -/
theorem outcome_eq {r : Flash × Service × Ret} (h : r.2.2 = .ok) : r = (r.1, r.2.1, .ok) := by
  obtain ⟨f, v, ret⟩ := r
  cases h
  rfl

/-- The loader takes the sample image, and everything was checked. -/
theorem nativeLoad_safe_sample : ∃ f' v',
    nativeLoad sampleMachine (sampleFlash (sampleSymbols 0x20035004)) Service.boot =
      (f', v', .ok) ∧
    Checked sampleMachine (sampleFlash (sampleSymbols 0x20035004)).slot v'.entry := by
  have run := outcome_eq sample_loads
  exact ⟨_, _, run, (nativeLoad_safe sampleMachine (by decide) _ _ _ _ _ run).2.2.1 rfl⟩

/-! ## The loaded image -/

/-- Application RAM after a load: `.data` from the payload, `.bss` zero, and the rest as before. -/
def LoadedExactly (m : Machine) (slot : Memory) (v v' : Service) : Prop :=
  let metadata := metadataOf slot
  let data := m.ramBase + metadata.dataRamOffset.toNat
  let bss := m.ramBase + metadata.bssRamOffset.toNat
  (∀ i, i < metadata.dataSize.toNat →
    v'.ram (data + i) = slot (imageHeaderSize + metadata.dataLoadOffset.toNat + i)) ∧
  (∀ i, i < metadata.bssSize.toNat → v'.ram (bss + i) = 0) ∧
  (∀ x, (x < data ∨ data + metadata.dataSize.toNat ≤ x) →
    (x < bss ∨ bss + metadata.bssSize.toNat ≤ x) → v'.ram x = v.ram x)

/-- Every byte of `.data` that lies in `.bss` is zero. -/
def ZeroOverlap (slot : Memory) : Prop :=
  let metadata := metadataOf slot
  ∀ i, i < metadata.dataSize.toNat →
    metadata.bssRamOffset.toNat ≤ metadata.dataRamOffset.toNat + i →
    metadata.dataRamOffset.toNat + i < metadata.bssRamOffset.toNat + metadata.bssSize.toNat →
    slot (imageHeaderSize + metadata.dataLoadOffset.toNat + i) = 0

instance (slot : Memory) : Decidable (ZeroOverlap slot) := by
  unfold ZeroOverlap
  infer_instance

/-- A load that returns 0 leaves the image in RAM as its metadata says, if and only if `.bss` does
not clear a byte of `.data`. -/
theorem loaded_exactly_iff (m : Machine) (f : Flash) (v : Service) {f' : Flash} {v' : Service}
    (h : nativeLoad m f v = (f', v', .ok)) :
    LoadedExactly m f.slot v v' ↔ ZeroOverlap f.slot := by
  obtain ⟨_, _, _, hload, _, _, hok, _⟩ :=
    nativeLoad_spec (P := fun _ => True) f v (m := m) fun _ _ _ => trivial
  rw [h] at hload
  cases hload
  have hram := (hok rfl).ram
  unfold LoadedExactly ZeroOverlap
  dsimp only
  generalize metadataOf f.slot = metadata at hram ⊢
  have apply : ∀ x, v'.ram x =
      if m.ramBase + metadata.bssRamOffset.toNat ≤ x ∧
          x < m.ramBase + metadata.bssRamOffset.toNat + metadata.bssSize.toNat then 0
      else if m.ramBase + metadata.dataRamOffset.toNat ≤ x ∧
          x < m.ramBase + metadata.dataRamOffset.toNat + metadata.dataSize.toNat then
        f.slot (imageHeaderSize + metadata.dataLoadOffset.toNat +
          (x - (m.ramBase + metadata.dataRamOffset.toNat)))
      else v.ram x := by
    intro x
    rw [hram]
    unfold Memory.fill
    rw [Memory.copy_slice_apply]
  constructor
  · rintro ⟨hdata, _, _⟩ i hi hlo hhi
    rw [← hdata i hi, apply, if_pos (by omega)]
  · intro zero
    refine ⟨fun i hi => ?_, fun i hi => ?_, fun x hdata hbss => ?_⟩
    · rw [apply]
      split
      · exact (zero i hi (by omega) (by omega)).symm
      · rw [if_pos (by omega), Nat.add_sub_cancel_left]
    · rw [apply, if_pos (by omega)]
    · rw [apply, if_neg (by omega), if_neg (by omega)]

/-- The sample image, whose `.bss` lies behind its `.data`, is loaded exactly. -/
theorem sample_loaded_exactly : ∃ f' v',
    nativeLoad sampleMachine (sampleFlash (sampleSymbols 0x20035004)) Service.boot =
      (f', v', .ok) ∧
    LoadedExactly sampleMachine (sampleFlash (sampleSymbols 0x20035004)).slot Service.boot v' := by
  have run := outcome_eq sample_loads
  have zero : ZeroOverlap (sampleFlash (sampleSymbols 0x20035004)).slot := by decide +kernel
  exact ⟨_, _, run, (loaded_exactly_iff sampleMachine _ _ run).mpr zero⟩

/-- If `.bss` starts where `.data` does, the loader returns 0 and `.data` is cleared. -/
theorem data_cleared_by_bss :
    ¬ ∀ (m : Machine) (f : Flash) (v : Service) (f' : Flash) (v' : Service),
      nativeLoad m f v = (f', v', .ok) → LoadedExactly m f.slot v v' := by
  intro always
  have loads : (nativeLoad sampleMachine (sampleFlash (sampleSymbols 0x20035000))
      Service.boot).2.2 = .ok := by decide +kernel
  have run := outcome_eq loads
  have ⟨hdata, _⟩ := always sampleMachine _ Service.boot _ _ run
  have first := hdata 0 (by decide +kernel)
  have cleared : (nativeLoad sampleMachine (sampleFlash (sampleSymbols 0x20035000))
      Service.boot).2.1.ram (sampleMachine.ramBase + (metadataOf (sampleFlash
        (sampleSymbols 0x20035000)).slot).dataRamOffset.toNat + 0) = 0 := by decide +kernel
  exact absurd (first.symm.trans cleared) (by decide +kernel)

end Rtbus.Native
