import Rtbus.Host.Header
import Rtbus.Native.Loading

/-!
# Packer and loader

`validate_symbols` looks at the bounds of `.data` and `.bss` in application RAM from one side each,
and not at all at where the entry and the load address of `.data` are. So `build_header` may write
differences that have wrapped, or offsets outside of the payload, and the loader refuses the image.

`Ordered` is what the linker map must satisfy for the loader to take what the packer writes.
-/

namespace Rtbus.Host

open Rtbus.Image Rtbus.Native

/-- The differences that the header holds do not wrap. -/
def NoWrap (symbols : ApplicationSymbols) : Prop :=
  symbols.flashStart ≤ symbols.entry ∧ symbols.flashStart ≤ symbols.dataLoad ∧
    symbols.ramStart ≤ symbols.dataStart ∧ symbols.dataStart ≤ symbols.dataEnd ∧
    symbols.ramStart ≤ symbols.bssStart ∧ symbols.bssStart ≤ symbols.bssEnd

/-- The sections are in order and the flash addresses lie in a payload of this size. -/
def Ordered (symbols : ApplicationSymbols) (payloadSize : Nat) : Prop :=
  symbols.flashStart ≤ symbols.entry ∧
    symbols.entry.toNat < symbols.flashStart.toNat + payloadSize ∧
    symbols.flashStart ≤ symbols.dataLoad ∧ symbols.dataStart ≤ symbols.dataEnd ∧
    symbols.dataLoad.toNat + (symbols.dataEnd.toNat - symbols.dataStart.toNat) ≤
      symbols.flashStart.toNat + payloadSize ∧
    symbols.bssStart ≤ symbols.bssEnd

instance (symbols : ApplicationSymbols) (payloadSize : Nat) :
    Decidable (Ordered symbols payloadSize) := by
  unfold Ordered
  infer_instance

/-- What the loader says to the header that the packer builds: the result of
`native_validate_metadata` on the status and the metadata that the image service reads from it. -/
def validatePacked (m : Machine) (symbols : ApplicationSymbols) (name version : CString)
    (ramSize : UInt32) (payload : List UInt8) : Ret :=
  let header := Header.ofBytes (buildHeader symbols name version ramSize
    (UInt32.ofNat payload.length) (crc32Update 0 payload))
  nativeValidateMetadata m (header.status header.payloadCrc32) (.ofBytes header.reserved)

/-- What `validate_symbols` checks, if it accepts. -/
theorem validateSymbols_eq_some {symbols : ApplicationSymbols} {ramSize : UInt32}
    (h : validateSymbols symbols = some ramSize) :
    symbols.ramStart ≤ symbols.dataStart ∧ symbols.dataEnd ≤ symbols.ramEnd ∧
      symbols.ramStart ≤ symbols.bssStart ∧ symbols.bssEnd ≤ symbols.ramEnd ∧
      symbols.ramStart ≤ symbols.ramEnd ∧ ramSize = symbols.ramEnd - symbols.ramStart := by
  unfold validateSymbols at h
  split at h
  · cases h
  · split at h
    · cases h
    · rename_i hram
      split at h
      · cases h
      · rename_i hsections
        simp only [not_or, UInt32.not_lt, gt_iff_lt] at hsections
        obtain ⟨hdata, hdataEnd, hbss, hbssEnd⟩ := hsections
        exact ⟨hdata, hdataEnd, hbss, hbssEnd, UInt32.le_of_lt (UInt32.not_le.mp hram),
          (Option.some.inj h).symm⟩

/-- The flags of the packer pass the first two checks of the loader. -/
theorem validate_of_flags {m : Machine} {status : Status} {metadata : NativeMetadata}
    (h : status.flags = flagsMakeNativeAbi apiVersion) :
    nativeValidateMetadata m status metadata =
      if MetadataInRange metadata status.payloadSize (UInt32.ofNat m.imageRamMax) then .ok
      else .err .EINVAL := by
  unfold nativeValidateMetadata
  have hnative : ¬ flagsMakeNativeAbi apiVersion &&& imageFlagNative = 0 := by decide
  have habi : ¬ flagsAbiVersion (flagsMakeNativeAbi apiVersion) ≠ apiVersion := by decide
  rw [h, if_neg hnative, if_neg habi]

theorem validatePacked_eq (m : Machine) (symbols : ApplicationSymbols) (name version : CString)
    (ramSize : UInt32) (payload : List UInt8) :
    validatePacked m symbols name version ramSize payload =
      if MetadataInRange (packedMetadata symbols) (UInt32.ofNat payload.length)
        (UInt32.ofNat m.imageRamMax) then .ok else .err .EINVAL := by
  unfold validatePacked
  rw [ofBytes_buildHeader, ← ofBytes_packedReserved]
  exact validate_of_flags rfl

/-- For every map that `validate_symbols` accepts with a RAM size within the limit: the loader
accepts the header that is built, and no difference in it wraps, if and only if the map is
ordered. -/
theorem packed_accepted_iff (m : Machine) (symbols : ApplicationSymbols) (name version : CString)
    {ramSize : UInt32} (payload : List UInt8) (accepted : validateSymbols symbols = some ramSize)
    (small : ramSize.toNat ≤ m.imageRamMax) :
    (validatePacked m symbols name version ramSize payload = .ok ∧ NoWrap symbols) ↔
      Ordered symbols (payload.length % 2 ^ 32) := by
  obtain ⟨hdata, hdataEnd, hbss, hbssEnd, hram, hsize⟩ := validateSymbols_eq_some accepted
  rw [hsize, UInt32.toNat_sub_of_le _ _ hram] at small
  rw [validatePacked_eq]
  have hif : ∀ p : Prop, ∀ _ : Decidable p, (if p then Ret.ok else .err .EINVAL) = .ok ↔ p := by
    intro p _
    split <;> simp_all
  rw [hif, metadataInRange_iff, ramMax_toNat, UInt32.toNat_ofNat']
  unfold NoWrap Ordered packedMetadata
  dsimp only
  -- under either side the six differences are those of the numbers
  have differences : ∀ a b : UInt32, b ≤ a → (a - b).toNat = a.toNat - b.toNat :=
    fun a b => UInt32.toNat_sub_of_le a b
  simp only [UInt32.le_iff_toNat_le] at hdata hdataEnd hbss hbssEnd hram differences ⊢
  constructor
  · rintro ⟨⟨h1, h2, _, _⟩, hentry, hload, hd, hde, hb, hbe⟩
    rw [differences _ _ hentry] at h1
    rw [differences _ _ hload, differences _ _ hde] at h2
    exact ⟨hentry, by omega, hload, hde, by omega, hbe⟩
  · rintro ⟨hentry, h1, hload, hde, h2, hbe⟩
    rw [differences _ _ hentry, differences _ _ hload, differences _ _ hde, differences _ _ hdata,
      differences _ _ hbss, differences _ _ hbe]
    exact ⟨⟨by omega, by omega, by omega, by omega⟩, hentry, hload, hdata, hde, hbss, hbe⟩

/-- The sample map is ordered, and its image is accepted. -/
theorem sample_packed_accepted :
    validatePacked sampleMachine (sampleSymbols 0x20035004) ⟨[97, 98], by decide⟩ ⟨[49], by decide⟩
      0x400 [1, 2, 3, 4, 5, 6, 7, 8] = .ok ∧ NoWrap (sampleSymbols 0x20035004) :=
  (packed_accepted_iff sampleMachine (sampleSymbols 0x20035004) ⟨[97, 98], by decide⟩
    ⟨[49], by decide⟩ [1, 2, 3, 4, 5, 6, 7, 8] (by decide) (by decide)).mpr
    (by decide)

/-- The sample map with `__module_entry` below `__module_flash_start` is accepted by
`validate_symbols`, and its image is refused by the loader. -/
theorem packed_refused :
    ¬ ∀ (m : Machine) (symbols : ApplicationSymbols) (name version : CString) (ramSize : UInt32)
      (payload : List UInt8), payload ≠ [] → validateSymbols symbols = some ramSize →
        ramSize.toNat ≤ m.imageRamMax →
        validatePacked m symbols name version ramSize payload = .ok ∧ NoWrap symbols := by
  intro always
  obtain ⟨_, hentry, _⟩ := always sampleMachine { sampleSymbols 0x20035004 with entry := 0xec07c }
    ⟨[97, 98], by decide⟩ ⟨[49], by decide⟩ 0x400 [1, 2, 3, 4, 5, 6, 7, 8] (by decide) (by decide)
    (by decide)
  revert hentry
  decide

end Rtbus.Host
