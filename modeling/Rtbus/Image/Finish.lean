import Mathlib.Data.List.Basic
import Rtbus.Image.Session

/-!
# The finish of a session

The finish reads the image back from the partition it was stored into, checks it, and copies it into
the component slot if that is another one. `AcceptsFile` is what it checks, said of the bytes of the
image. `imageStoreFinish_spec` says that it succeeds for no other image, and for these if no call of
the flash fails.
-/

namespace Rtbus.Image

variable (b : Board)

/-- A file at the start of an erased partition. -/
def fileMemory (d : List UInt8) : Memory := Memory.copy (fun _ => 0xff) 0 d

/-- The checks of `rtbus_image_store_finish` on a complete image. -/
def AcceptsFile (d : List UInt8) : Prop :=
  (headerOf (fileMemory d)).Valid (d.length - imageHeaderSize) ∧
    (headerOf (fileMemory d)).requiredRamSize.toNat ≤ b.imageRamMax ∧
    blockwiseCrc b (fileMemory d) (headerOf (fileMemory d)).payloadSize.toNat =
      (headerOf (fileMemory d)).payloadCrc32

instance (d : List UInt8) : Decidable (AcceptsFile b d) := by
  unfold AcceptsFile
  infer_instance

variable {b}

/-! ## Reading back -/

/-- The store with its flash read. -/
def Store.read (s : Store) (f : Flash) : Store := { s with flash := f }

/-- A read of the store returns the bytes of its partition. -/
theorem imageStoreRead_spec {s : Store} {a : AreaId} {P : Access → Prop}
    (harea : s.ctx.flashArea = some a) (offset size : Nat) (kind : P (.read a offset size)) :
    ∃ f' ret bytes, imageStoreRead b offset size s = (s.read f', ret, bytes) ∧
      s.flash.Reads P f' ∧
      (ret = .ok → bytes = (s.flash.area a).slice offset size) ∧
      (s.flash.Fine → offset + size ≤ s.ctx.written → offset + size ≤ (b.partition a).size →
        ret = .ok) := by
  have same : s.flash.Reads P s.flash :=
    ⟨rfl, rfl, rfl, [], (List.append_nil _).symm, fun _ h => by cases h⟩
  unfold imageStoreRead
  by_cases hwritten : offset > s.ctx.written ∨ size > s.ctx.written - offset
  · rw [if_pos hwritten]
    exact ⟨s.flash, _, _, rfl, same, fun h => (by cases h), fun _ h => absurd hwritten (by omega)⟩
  · rw [if_neg hwritten, harea]
    dsimp only
    by_cases hroom : offset > (b.partition a).size ∨ size > (b.partition a).size - offset
    · rw [if_pos hroom]
      exact ⟨s.flash, _, _, rfl, same, fun h => (by cases h), fun _ _ h => absurd hroom (by omega)⟩
    · rw [if_neg hroom]
      obtain ⟨f', ret, bytes, hread, reads, _, hok, hfine⟩ :=
        flashAreaRead_spec b a offset size s.flash kind
      rw [hread]
      exact ⟨f', ret, bytes, rfl, reads, fun h => (hok h).2, fun fine _ h => hfine fine h⟩

/-- A header that is read is the one in the store. -/
theorem imageReadHeaderFromStore_spec {s : Store} {a : AreaId} {P : Access → Prop}
    (harea : s.ctx.flashArea = some a) (kind : P (.read a 0 imageHeaderSize)) :
    ∃ f' r, imageReadHeaderFromStore b s = (s.read f', r) ∧ s.flash.Reads P f' ∧
      (∀ h, r = .ok h → h = headerOf (s.flash.area a) ∧
        h.Valid (s.ctx.expectedSize - imageHeaderSize)) ∧
      (s.flash.Fine → imageHeaderSize ≤ s.ctx.written → imageHeaderSize ≤ (b.partition a).size →
        (headerOf (s.flash.area a)).Valid (s.ctx.expectedSize - imageHeaderSize) →
        r = .ok (headerOf (s.flash.area a))) := by
  obtain ⟨f', ret, bytes, hread, reads, hok, hfine⟩ :=
    imageStoreRead_spec (b := b) harea 0 imageHeaderSize kind
  unfold imageReadHeaderFromStore
  rw [hread]
  cases ret with
  | err e =>
    refine ⟨f', _, rfl, reads, fun h hr => (by cases hr), fun fine hw hp _ => ?_⟩
    cases hfine fine (by omega) (by omega)
  | ok =>
    obtain rfl := hok rfl
    dsimp only
    by_cases valid : (headerOf (s.flash.area a)).Valid (s.ctx.expectedSize - imageHeaderSize)
    · refine ⟨f', .ok (headerOf (s.flash.area a)), if_pos valid, reads, fun h hr => ?_,
        fun _ _ _ _ => rfl⟩
      cases hr
      exact ⟨rfl, valid⟩
    · exact ⟨f', .error .ENODATA, if_neg valid, reads, fun h hr => (by cases hr),
        fun _ _ _ h => absurd h valid⟩

/-- The CRC of the payload is computed over the turns of the loop. -/
theorem storePayloadCrcLoop_spec {s : Store} {a : AreaId} {P : Access → Prop}
    (harea : s.ctx.flashArea = some a) (kind : ∀ off len, P (.read a off len))
    (turns : List (Nat × Nat)) (crc : UInt32) :
    ∃ f' r, storePayloadCrcLoop b turns crc s = (s.read f', r) ∧
      s.flash.Reads P f' ∧
      (∀ c, r = .ok c → c = turns.foldl (fun crc turn =>
        b.crc32IeeeUpdate crc ((s.flash.area a).slice (imageHeaderSize + turn.1) turn.2)) crc) ∧
      (s.flash.Fine → (∀ turn ∈ turns, imageHeaderSize + turn.1 + turn.2 ≤ s.ctx.written) →
        s.ctx.written ≤ (b.partition a).size → ∃ c, r = .ok c) := by
  induction turns generalizing crc s with
  | nil =>
    refine ⟨s.flash, .ok crc, rfl, ⟨rfl, rfl, rfl, [], (List.append_nil _).symm, by simp⟩,
      fun c hc => ?_, fun _ _ _ => ⟨crc, rfl⟩⟩
    cases hc
    rfl
  | cons turn turns ih =>
    obtain ⟨f₁, ret, buf, hread, reads, hok, hfine⟩ :=
      imageStoreRead_spec (b := b) harea (imageHeaderSize + turn.1) turn.2 (kind _ _)
    unfold storePayloadCrcLoop
    rw [hread]
    cases ret with
    | err e =>
      refine ⟨f₁, _, rfl, reads, fun c hc => (by cases hc), fun fine room hw => ?_⟩
      have := room turn (List.mem_cons_self ..)
      cases hfine fine this (by omega)
    | ok =>
      obtain rfl := hok rfl
      obtain ⟨f₂, r, hloop, reads₂, hcrc, hsome⟩ := ih (s := s.read f₁) harea
        (b.crc32IeeeUpdate crc ((s.flash.area a).slice (imageHeaderSize + turn.1) turn.2))
      refine ⟨f₂, r, hloop, reads.trans reads₂, fun c hc => ?_, fun fine room hw => ?_⟩
      · rw [hcrc c hc, show (s.read f₁).flash.area a = s.flash.area a from reads.area a]
        rfl
      · exact hsome (reads.fine fine) (fun t ht => room t (List.mem_cons_of_mem _ ht)) hw

/-! ## The copy into the slot -/

/-- The turns of a loop in blocks from an offset up to a size. -/
inductive BlocksFrom (size : Nat) : Nat → List (Nat × Nat) → Prop
  | done : BlocksFrom size size []
  | turn {off len : Nat} {turns : List (Nat × Nat)} (inside : off + len ≤ size)
      (block : off % 128 = 0) : BlocksFrom size (off + len) turns →
      BlocksFrom size off ((off, len) :: turns)

/-- The turns cover the payload, one behind the other. -/
theorem blocks_from (size : Nat) : BlocksFrom size 0 (blocks size) := by
  have key : ∀ k i, i + k = (size + 127) / 128 → BlocksFrom size (min (128 * i) size)
      ((List.range' i k).map fun i => (128 * i, min 128 (size - 128 * i))) := by
    intro k
    induction k with
    | zero =>
      intro i hi
      rw [show min (128 * i) size = size by omega]
      exact .done
    | succ k ih =>
      intro i hi
      rw [List.range'_succ, List.map_cons, show min (128 * i) size = 128 * i by omega]
      refine .turn (by omega) (Nat.mul_mod_right _ _) ?_
      rw [show 128 * i + min 128 (size - 128 * i) = min (128 * (i + 1)) size by omega]
      exact ih (i + 1) (by omega)
  have := key ((size + 127) / 128) 0 (by omega)
  rw [show min (128 * 0) size = 0 by omega, ← List.range_eq_range'] at this
  exact this

/-- The copy leaves the bytes of the store in the slot, and nothing but padding behind them. -/
theorem commitLoop_spec {size off : Nat} {turns : List (Nat × Nat)} (from_ : BlocksFrom size off turns)
    {f : Flash} (copied : f.slot.slice 0 off = f.patch.slice 0 off)
    (erased : ErasedFrom b .slot off f) :
    ∃ f' ret, commitLoop b .patch turns f = (f', ret) ∧ f.Changes .slot f' ∧
      (ret = .ok → f'.slot.slice 0 size = f'.patch.slice 0 size ∧ ErasedFrom b .slot size f') ∧
      (f.Fine → b.Geometry → size ≤ b.slot.size → size ≤ (b.partition .patch).size → ret = .ok) := by
  induction from_ generalizing f with
  | done =>
    exact ⟨f, .ok, rfl, ⟨fun _ _ => rfl, rfl⟩, fun _ => ⟨copied, erased⟩, fun _ _ _ _ => rfl⟩
  | @turn off len turns inside block _ ih =>
    obtain ⟨f₁, ret, buf, hread, reads, _, hok, hfine⟩ :=
      flashAreaRead_spec b .patch off len f (P := fun _ => True) trivial
    unfold commitLoop
    rw [hread]
    cases ret with
    | err e =>
      refine ⟨f₁, _, rfl, reads.changes _, fun h => (by cases h), fun fine _ _ hpatch => ?_⟩
      cases hfine fine (by omega)
    | ok =>
      obtain ⟨_, rfl⟩ := hok rfl
      dsimp only
      have hbuf : ((f.area .patch).slice off len).length = len := Memory.slice_length ..
      generalize hpad : List.replicate (roundUp len b.slot.align - len) (0xff : UInt8) = pad
      obtain ⟨f₂, ret, hwrite, changes, frame, hok₂, hfine₂⟩ :=
        flashAreaWrite_spec b .slot off ((f.area .patch).slice off len ++ pad) f₁
      have changes₂ := (reads.changes .slot).trans changes
      rw [hwrite]
      cases ret with
      | err e =>
        refine ⟨f₂, _, rfl, changes₂, fun h => (by cases h), fun fine geometry hslot _ => ?_⟩
        have hup := le_roundUp (x := len) geometry.slotAlign
        have hoff : b.slot.align ∣ off :=
          Nat.dvd_trans geometry.slotAlignBlock (Nat.dvd_of_mod_eq_zero block)
        have hfit := roundUp_le geometry.slotAlign hoff geometry.slotAlignSize (x := len) (by omega)
        have hlen : ((f.area .patch).slice off len ++ pad).length = roundUp len b.slot.align := by
          rw [List.length_append, hbuf, ← hpad, List.length_replicate, Nat.add_sub_cancel' hup]
        cases hfine₂ (reads.fine fine) ⟨by rw [hlen]; exact hfit, Nat.mod_eq_zero_of_dvd hoff, by
          rw [hlen]
          exact Nat.mul_mod_left _ _⟩
      | ok =>
        have hslot : f₂.slot = f.slot.copy off ((f.area .patch).slice off len ++ pad) := by
          have := hok₂ rfl
          rwa [reads.area .slot] at this
        have hpatch : f₂.patch = f.patch := changes₂.other .patch (by decide)
        obtain ⟨hhere, _⟩ := slice_of_append (Memory.slice_copy f.slot off
          ((f.area .patch).slice off len ++ pad))
        rw [← hslot, hbuf] at hhere
        rw [reads.area .slot] at frame
        have hbefore : f₂.slot.slice 0 off = f.slot.slice 0 off :=
          frame.slice_eq (.inl (by omega))
        obtain ⟨f₃, ret, hloop, changes₃, hok₃, hfine₃⟩ := ih (f := f₂)
          (by
            rw [Memory.slice_add, Memory.slice_add, Nat.zero_add, hbefore, hhere, hpatch, copied]
            rfl)
          (by
            have := erasedFrom_copy (b := b) (a := .slot) (f := f) erased
              (n := roundUp len b.slot.align - len)
              (by rw [hpad]; exact hslot)
            rwa [hbuf] at this)
        exact ⟨f₃, ret, hloop, changes₂.trans changes₃, hok₃, fun fine => hfine₃ (changes₂.fine fine)⟩

/-- What `rtbus_image_commit_store_to_slot` does with a complete image. -/
theorem imageCommitStoreToSlot_spec {s : Store} {size : Nat}
    (harea : s.ctx.flashArea = some b.directStoreArea) (hwritten : s.ctx.written = size)
    (hexpected : s.ctx.expectedSize = size) (erased : ErasedFrom b b.directStoreArea size s.flash) :
    ∃ f' ret, imageCommitStoreToSlot b s = (s.read f', ret) ∧ f'.fate = s.flash.fate ∧
      (ret = .ok → f'.slot.slice 0 size = (s.flash.area b.directStoreArea).slice 0 size ∧
        ErasedFrom b .slot size f') ∧
      (s.flash.Fine → b.Geometry → size ≤ b.slot.size →
        size ≤ (b.partition b.directStoreArea).size → ret = .ok) := by
  unfold imageCommitStoreToSlot
  rw [harea]
  dsimp only
  rw [if_neg (by rw [hwritten, hexpected]; simp)]
  by_cases hdirect : b.directStoreArea = .slot
  · rw [if_pos hdirect]
    rw [hdirect] at erased ⊢
    exact ⟨s.flash, _, rfl, rfl, fun _ => ⟨rfl, erased⟩, fun _ _ _ _ => rfl⟩
  · rw [if_neg hdirect]
    have hpatch : b.directStoreArea = .patch := by
      cases h : b.directStoreArea with
      | slot => exact absurd h hdirect
      | patch => rfl
    rw [hpatch]
    have ask := (Flash.reads_ask (fun _ => True) s.flash).changes .slot
    cases hask : s.flash.ask with
    | mk f₁ ret =>
      rw [hask] at ask
      cases ret with
      | err e =>
        refine ⟨f₁, _, rfl, ask.fate, fun h => (by cases h), fun fine => ?_⟩
        rw [fine.ask] at hask
        cases hask
      | ok =>
        dsimp only
        by_cases hbig : s.ctx.expectedSize > b.slot.size
        · rw [if_pos hbig]
          exact ⟨f₁, _, rfl, ask.fate, fun h => (by cases h), fun _ _ h => absurd h (by omega)⟩
        · rw [if_neg hbig]
          by_cases halign : b.slot.align = 0 ∨ b.slot.align > 128
          · rw [if_pos halign]
            refine ⟨f₁, _, rfl, ask.fate, fun h => (by cases h), fun _ geometry => ?_⟩
            have := geometry.slotAlign
            have := Nat.le_of_dvd (by decide) geometry.slotAlignBlock
            omega
          · rw [if_neg halign]
            obtain ⟨f₂, ret, hflatten, changes, hok, hfine⟩ := flashAreaFlatten_spec b .slot f₁
            have changes₂ := ask.trans changes
            rw [hflatten]
            cases ret with
            | err e =>
              refine ⟨f₂, _, rfl, changes₂.fate, fun h => (by cases h), fun fine => ?_⟩
              cases hfine (ask.fine fine)
            | ok =>
              obtain ⟨f₃, ret, hloop, changes₃, hok₃, hfine₃⟩ := commitLoop_spec (b := b) (f := f₂)
                (blocks_from s.ctx.expectedSize) rfl (fun x _ hx => by
                  rw [hok rfl]
                  exact if_pos ⟨Nat.zero_le x, by omega⟩)
              have changes₃ := changes₂.trans changes₃
              rw [hexpected] at hok₃ hfine₃ hloop
              dsimp only
              rw [hexpected, hloop]
              refine ⟨f₃, ret, rfl, changes₃.fate, fun h => ?_, fun fine => hfine₃ (changes₂.fine fine)⟩
              obtain ⟨hcopied, herased⟩ := hok₃ h
              exact ⟨hcopied.trans (by rw [show f₃.patch = s.flash.area .patch from
                changes₃.other .patch (by decide)]), herased⟩

/-! ## The finish -/

/-- The header is a matter of the first bytes. -/
theorem headerOf_congr {m m' : Memory} {n : Nat} (h : m.slice 0 n = m'.slice 0 n)
    (room : imageHeaderSize ≤ n) : headerOf m = headerOf m' := by
  have : m.slice 0 imageHeaderSize = m'.slice 0 imageHeaderSize :=
    Memory.slice_congr fun x lo hi => Memory.apply_of_slice h lo (by omega)
  unfold headerOf
  rw [this]

/-- The CRC is a matter of header and payload. -/
theorem blockwiseCrc_congr {m m' : Memory} {n size : Nat} (h : m.slice 0 n = m'.slice 0 n)
    (room : imageHeaderSize + size ≤ n) : blockwiseCrc b m size = blockwiseCrc b m' size := by
  unfold blockwiseCrc
  refine List.foldl_ext _ _ _ fun crc turn ht => ?_
  have := mem_blocks ht
  have hslice : m.slice (imageHeaderSize + turn.1) turn.2 =
      m'.slice (imageHeaderSize + turn.1) turn.2 :=
    Memory.slice_congr fun x lo hi => Memory.apply_of_slice h (Nat.zero_le x) (by omega)
  rw [hslice]

theorem fileMemory_slice (d : List UInt8) : (fileMemory d).slice 0 d.length = d :=
  Memory.slice_copy _ _ _

/-- The checks of the finish, said of a memory that starts with the file. -/
theorem acceptsFile_iff {d : List UInt8} {m : Memory} (h : m.slice 0 d.length = d)
    (room : imageHeaderSize ≤ d.length) : AcceptsFile b d ↔
      (headerOf m).Valid (d.length - imageHeaderSize) ∧
        (headerOf m).requiredRamSize.toNat ≤ b.imageRamMax ∧
        blockwiseCrc b m (headerOf m).payloadSize.toNat = (headerOf m).payloadCrc32 := by
  have hsame : (fileMemory d).slice 0 d.length = m.slice 0 d.length :=
    (fileMemory_slice d).trans h.symm
  unfold AcceptsFile
  rw [headerOf_congr hsame room]
  refine and_congr_right fun valid => and_congr_right fun _ => ?_
  obtain ⟨_, _, _, _, hle⟩ := valid
  rw [blockwiseCrc_congr hsame (by omega)]

/-- What the checks of the finish do with a complete image that has been written out. -/
theorem imageCheckStore_spec {s : Store} {d : List UInt8}
    (harea : s.ctx.flashArea = some b.directStoreArea) (hwritten : s.ctx.written = d.length)
    (hexpected : s.ctx.expectedSize = d.length) (room : imageHeaderSize ≤ d.length)
    (bytes : (s.flash.area b.directStoreArea).slice 0 d.length = d)
    (erased : ErasedFrom b b.directStoreArea d.length s.flash)
    (valid : (headerOf (s.flash.area b.directStoreArea)).Valid (d.length - imageHeaderSize)) :
    ∃ f' ret, imageCheckStore b (headerOf (s.flash.area b.directStoreArea)) s = (s.read f', ret) ∧
      f'.fate = s.flash.fate ∧
      (ret = .ok → AcceptsFile b d ∧ f'.slot.slice 0 d.length = d ∧
        ErasedFrom b .slot d.length f') ∧
      (s.flash.Fine → b.Geometry → d.length ≤ b.slot.size →
        d.length ≤ (b.partition b.directStoreArea).size → AcceptsFile b d → ret = .ok) := by
  have haccepts := acceptsFile_iff (b := b) bytes room
  obtain ⟨_, _, _, _, hle⟩ := id valid
  unfold imageCheckStore
  rw [hexpected, if_neg (by omega)]
  by_cases hram : (headerOf (s.flash.area b.directStoreArea)).requiredRamSize.toNat > b.imageRamMax
  · rw [if_pos hram]
    refine ⟨s.flash, _, rfl, rfl, fun h => (by cases h), fun _ _ _ _ accepts => ?_⟩
    have := (haccepts.mp accepts).2.1
    omega
  · rw [if_neg hram]
    obtain ⟨f₁, r, hloop, reads, hcrc, hsome⟩ := storePayloadCrcLoop_spec (b := b)
      (P := fun _ => True) harea (fun _ _ => trivial)
      (blocks (headerOf (s.flash.area b.directStoreArea)).payloadSize.toNat) 0
    have hcalculate : imageCalculateStorePayloadCrc b
      (headerOf (s.flash.area b.directStoreArea)).payloadSize s = (s.read f₁, r) := hloop
    rw [hcalculate]
    cases r with
    | error e =>
      refine ⟨f₁, _, rfl, reads.fate, fun h => (by cases h), fun fine _ _ hpart _ => ?_⟩
      obtain ⟨c, hc⟩ := hsome fine (fun turn ht => by
        have := mem_blocks ht
        omega) (by omega)
      cases hc
    | ok crc =>
      have hcrc : crc = blockwiseCrc b (s.flash.area b.directStoreArea)
        (headerOf (s.flash.area b.directStoreArea)).payloadSize.toNat := hcrc crc rfl
      dsimp only
      by_cases hmatch : crc = (headerOf (s.flash.area b.directStoreArea)).payloadCrc32
      · rw [if_neg (not_not.mpr hmatch)]
        have harea₁ : f₁.area b.directStoreArea = s.flash.area b.directStoreArea := reads.area _
        obtain ⟨f₂, ret, hcommit, fate, hok, hfine⟩ := imageCommitStoreToSlot_spec (b := b)
          (s := s.read f₁) harea hwritten hexpected (by
            intro x lo hi
            show f₁.area b.directStoreArea x = 0xff
            rw [harea₁]
            exact erased x lo hi)
        refine ⟨f₂, ret, hcommit, fate.trans reads.fate, fun h => ?_, fun fine geometry hslot hpart _ =>
          hfine (reads.fine fine) geometry hslot hpart⟩
        obtain ⟨hbytes, herased⟩ := hok h
        refine ⟨haccepts.mpr ⟨valid, by omega, hcrc.symm.trans hmatch⟩, ?_, herased⟩
        rw [hbytes]
        show (f₁.area b.directStoreArea).slice 0 d.length = d
        rw [harea₁, bytes]
      · rw [if_pos hmatch]
        refine ⟨f₁, _, rfl, reads.fate, fun h => (by cases h), fun _ _ _ _ accepts => ?_⟩
        exact absurd (hcrc.trans (haccepts.mp accepts).2.2) hmatch

/-- What the finish of a session does: it succeeds for a complete image that passes the checks only,
which then lies in the slot with nothing but padding behind it; and it succeeds for every such image
if no call of the flash fails. -/
theorem imageStoreFinish_spec {size : Nat} {d : List UInt8} {s : Store} (session : Session b size d s)
    (status : Ret) :
    ∃ s' ret, imageStoreFinish b status s = (s', ret) ∧ s'.ctx = .zero ∧
      s'.flash.fate = s.flash.fate ∧
      (ret = .ok → status = .ok ∧ d.length = size ∧ AcceptsFile b d ∧
        s'.flash.slot.slice 0 size = d ∧ ErasedFrom b .slot size s'.flash) ∧
      (s.flash.Fine → b.Geometry → status = .ok → d.length = size → AcceptsFile b d →
        ret = .ok) := by
  unfold imageStoreFinish
  rw [if_neg (by rw [session.active]; simp)]
  cases status with
  | err e =>
    exact ⟨_, _, rfl, rfl, rfl, fun h => (by cases h), fun _ _ h => by cases h⟩
  | ok =>
    dsimp only
    by_cases hcomplete : s.ctx.written = s.ctx.expectedSize
    · rw [if_neg (not_not.mpr hcomplete)]
      have hwritten := session.written
      have hexpected := session.expected
      obtain rfl : d.length = size := hwritten.symm.trans (hcomplete.trans hexpected)
      unfold imageStoreComplete
      obtain ⟨s₁, ret, hflush, counters, changes, hbytes, herased, hfine⟩ :=
        finalFlush_spec session.toGathered
      rw [hflush]
      cases ret with
      | err e =>
        refine ⟨_, _, rfl, rfl, changes.fate, fun h => (by cases h), fun fine geometry _ _ _ => ?_⟩
        cases hfine fine geometry session.partition
      | ok =>
        have hbytes := hbytes rfl
        have herased := herased rfl session.erased
        have harea : s₁.ctx.flashArea = some b.directStoreArea := counters.area.trans session.area
        have hwritten₁ := counters.written.trans hwritten
        have hexpected₁ := counters.expected.trans hexpected
        obtain ⟨f₂, r, hheader, reads, hok, hread⟩ :=
          imageReadHeaderFromStore_spec (b := b) (P := fun _ => True) harea trivial
        rw [hexpected₁] at hok hread
        dsimp only
        rw [hheader]
        cases r with
        | error e =>
          refine ⟨_, _, rfl, rfl, reads.fate.trans changes.fate, fun h => (by cases h),
            fun fine geometry _ _ accepts => ?_⟩
          have room := session.header
          have hpart := session.partition
          cases hread (changes.fine fine) (by omega) (by omega)
            ((acceptsFile_iff hbytes room).mp accepts).1
        | ok header =>
          obtain ⟨rfl, valid⟩ := hok header rfl
          have hsame : f₂.area b.directStoreArea = s₁.flash.area b.directStoreArea := reads.area _
          obtain ⟨f₃, ret, hcheck, fate, hok₃, hfine₃⟩ := imageCheckStore_spec (b := b)
            (s := s₁.read f₂) (d := d) harea hwritten₁ hexpected₁ session.header
            (by show (f₂.area _).slice 0 _ = _; rw [hsame, hbytes])
            (by intro x lo hi; show f₂.area _ x = _; rw [hsame]; exact herased x lo hi)
            (by show (headerOf (f₂.area _)).Valid _; rw [hsame]; exact valid)
          rw [show (s₁.read f₂).flash.area b.directStoreArea =
            s₁.flash.area b.directStoreArea from hsame] at hcheck
          dsimp only
          rw [hcheck]
          refine ⟨_, _, rfl, rfl, fate.trans (reads.fate.trans changes.fate), fun h => ?_,
            fun fine geometry _ _ accepts => hfine₃ (reads.fine (changes.fine fine)) geometry
              session.slot session.partition accepts⟩
          obtain ⟨haccepts, hslot, hpad⟩ := hok₃ h
          exact ⟨rfl, rfl, haccepts, hslot, hpad⟩
    · rw [if_pos hcomplete]
      refine ⟨_, _, rfl, rfl, rfl, fun h => (by cases h), fun _ _ _ hd _ => ?_⟩
      exact absurd (session.written.trans (hd.trans session.expected.symm)) hcomplete

end Rtbus.Image
