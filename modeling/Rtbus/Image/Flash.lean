import Rtbus.Base.Errno
import Rtbus.Base.Memory

/-!
# Flash partitions

The image store works on two partitions through the `flash_area` calls of the operating system:
`component_slot_partition`, from which the native application runs, and `patch_partition`, into
which an image is staged on the boards that have one.

Every call asks the `fate` of the flash for its outcome. A call that returns 0 has taken effect. A
call that fails leaves arbitrary bytes in the range it was about: in the partition for an erase or a
write, in the buffer of the caller for a read. A call outside of the partition, or a write that does
not respect the write block of the device, is refused and changes nothing.

`log` lists the reads, erases and writes that were asked for. It is history, nothing depends on it.
-/

namespace Rtbus.Image

/-- `component_slot_partition` or `patch_partition`. -/
inductive AreaId
  | slot
  | patch
  deriving DecidableEq

/-- A partition: `fa_size`, which a `size_t` of 32 bits holds, and the write block of its device. -/
structure Partition where
  size : Nat
  align : Nat
  size_lt : size < 2 ^ 32

/-- What the build and the board fix: the partitions, `RTBUS_IMAGE_FLASH_PENDING_MAX`,
`CONFIG_RTBUS_IMAGE_RAM_MAX`, and `crc32_ieee_update` of the operating system. -/
structure Board where
  slot : Partition
  patch : Option Partition
  flashPendingMax : Nat
  imageRamMax : Nat
  crc32IeeeUpdate : UInt32 → List UInt8 → UInt32

/-- The partition behind an id. Without a `patch_partition` nothing opens it. -/
def Board.partition (b : Board) : AreaId → Partition
  | .slot => b.slot
  | .patch => b.patch.getD b.slot

/-- `RTBUS_IMAGE_DIRECT_STORE_AREA_ID`. -/
def Board.directStoreArea (b : Board) : AreaId := if b.patch.isSome then .patch else .slot

/-- The outcome of a call: its return code, and what it leaves behind if it fails. -/
structure Fate where
  ret : Ret
  junk : Memory

/-- What a call was about. -/
inductive Access
  | read (a : AreaId) (off len : Nat)
  | write (a : AreaId) (off len : Nat)
  | erase (a : AreaId)
  deriving DecidableEq

/-- The flash: the contents of the partitions, and the outcomes of the calls to come. -/
structure Flash where
  slot : Memory
  patch : Memory
  fate : Nat → Fate
  calls : Nat
  log : List Access

namespace Flash

variable (f : Flash)

/-- The contents of a partition. -/
def area : AreaId → Memory
  | .slot => f.slot
  | .patch => f.patch

/-- The contents of a partition changed. -/
def setArea (m : Memory) : AreaId → Flash
  | .slot => { f with slot := m }
  | .patch => { f with patch := m }

/-- The outcome of the next call. -/
def next : Fate := f.fate f.calls

/-- `flash_area_open`, and `device_is_ready` likewise: a call without an effect. -/
def ask : Flash × Ret := ({ f with calls := f.calls + 1 }, f.next.ret)

/-- A call that is about the contents of a partition was made. -/
def record (x : Access) : Flash := { f with calls := f.calls + 1, log := f.log ++ [x] }

end Flash

/-- `flash_area_read`, with what it leaves in the buffer. -/
def flashAreaRead (b : Board) (a : AreaId) (off len : Nat) (f : Flash) :
    Flash × Ret × List UInt8 :=
  let f' := f.record (.read a off len)
  if off + len > (b.partition a).size then (f', .err .EINVAL, [])
  else
    match f.next.ret with
    | .ok => (f', .ok, (f.area a).slice off len)
    | .err e => (f', .err e, f.next.junk.slice 0 len)

/-- `flash_area_write`. -/
def flashAreaWrite (b : Board) (a : AreaId) (off : Nat) (bytes : List UInt8) (f : Flash) :
    Flash × Ret :=
  let f' := f.record (.write a off bytes.length)
  if off + bytes.length > (b.partition a).size ∨ off % (b.partition a).align ≠ 0 ∨
      bytes.length % (b.partition a).align ≠ 0 then
    (f', .err .EINVAL)
  else
    match f.next.ret with
    | .ok => (f'.setArea ((f.area a).copy off bytes) a, .ok)
    | .err e => (f'.setArea ((f.area a).copy off (f.next.junk.slice off bytes.length)) a, .err e)

/-- `flash_area_flatten` of a whole partition. -/
def flashAreaFlatten (b : Board) (a : AreaId) (f : Flash) : Flash × Ret :=
  let f' := f.record (.erase a)
  match f.next.ret with
  | .ok => (f'.setArea ((f.area a).fill 0 (b.partition a).size 0xff) a, .ok)
  | .err e =>
    (f'.setArea ((f.area a).copy 0 (f.next.junk.slice 0 (b.partition a).size)) a, .err e)

/-- `ROUND_UP`. -/
def roundUp (x align : Nat) : Nat := (x + (align - 1)) / align * align

/-- The turns of a loop over `size` bytes in blocks of 128, as offsets and lengths. -/
def blocks (size : Nat) : List (Nat × Nat) :=
  (List.range ((size + 127) / 128)).map fun i => (128 * i, min 128 (size - 128 * i))

/-- The turns of such a loop stay within the bytes. -/
theorem mem_blocks {size : Nat} {turn : Nat × Nat} (h : turn ∈ blocks size) :
    turn.1 + turn.2 ≤ size ∧ 0 < turn.2 ∧ turn.2 ≤ 128 ∧ turn.1 % 128 = 0 := by
  obtain ⟨i, hi, rfl⟩ := List.mem_map.mp h
  have := List.mem_range.mp hi
  dsimp only
  omega

/-! ## Calls that read -/

namespace Flash

/-- A step that reads only, by accesses of a kind. -/
structure Reads (P : Access → Prop) (f f' : Flash) : Prop where
  slot : f'.slot = f.slot
  patch : f'.patch = f.patch
  fate : f'.fate = f.fate
  log : ∃ rs, f'.log = f.log ++ rs ∧ ∀ x ∈ rs, P x

variable {P : Access → Prop} {f f₁ f₂ : Flash}

/-- Reading changes no contents. -/
theorem Reads.area (h : f.Reads P f₁) (a : AreaId) : f₁.area a = f.area a := by
  cases a with
  | slot => exact h.slot
  | patch => exact h.patch

/-- Reading in two stretches. -/
theorem Reads.trans (h₁ : f.Reads P f₁) (h₂ : f₁.Reads P f₂) : f.Reads P f₂ := by
  obtain ⟨rs₁, log₁, all₁⟩ := h₁.log
  obtain ⟨rs₂, log₂, all₂⟩ := h₂.log
  refine ⟨h₂.slot.trans h₁.slot, h₂.patch.trans h₁.patch, h₂.fate.trans h₁.fate, rs₁ ++ rs₂,
    by rw [log₂, log₁, List.append_assoc], fun x hx => ?_⟩
  rcases List.mem_append.mp hx with hx | hx
  · exact all₁ x hx
  · exact all₂ x hx

/-- Opening a partition reads nothing. -/
theorem reads_ask (P : Access → Prop) (f : Flash) : f.Reads P f.ask.1 :=
  ⟨rfl, rfl, rfl, [], (List.append_nil _).symm, fun _ hx => by cases hx⟩

theorem reads_record {x : Access} (h : P x) (f : Flash) : f.Reads P (f.record x) :=
  ⟨rfl, rfl, rfl, [x], rfl, fun y hy => by rw [List.mem_singleton.mp hy]; exact h⟩

/-- No call fails from here on. -/
def Fine (f : Flash) : Prop := ∀ n, (f.fate n).ret = .ok

/-- Where no call fails none will behind a read. -/
theorem Reads.fine (h : f.Reads P f₁) (fine : f.Fine) : f₁.Fine := by
  unfold Fine
  rw [h.fate]
  exact fine

/-- Where no call fails a partition opens. -/
theorem Fine.ask (fine : f.Fine) : f.ask = ({ f with calls := f.calls + 1 }, .ok) :=
  Prod.ext rfl (fine _)

end Flash

/-- What a read does. -/
theorem flashAreaRead_spec (b : Board) (a : AreaId) (off len : Nat) (f : Flash) {P : Access → Prop}
    (kind : P (.read a off len)) : ∃ f' ret bytes, flashAreaRead b a off len f = (f', ret, bytes) ∧
      f.Reads P f' ∧ bytes.length ≤ len ∧
      (ret = .ok → off + len ≤ (b.partition a).size ∧ bytes = (f.area a).slice off len) ∧
      (f.Fine → off + len ≤ (b.partition a).size → ret = .ok) := by
  unfold flashAreaRead
  dsimp only
  have reads := Flash.reads_record kind f
  by_cases hout : off + len > (b.partition a).size
  · rw [if_pos hout]
    exact ⟨_, _, _, rfl, reads, Nat.zero_le _, fun h => (by cases h), fun _ hin => by omega⟩
  · rw [if_neg hout]
    cases hfate : f.next.ret with
    | ok =>
      refine ⟨_, _, _, rfl, reads, ?_, fun _ => ⟨by omega, rfl⟩, fun _ _ => rfl⟩
      rw [Memory.slice_length]
    | err e =>
      refine ⟨_, _, _, rfl, reads, ?_, fun h => (by cases h), fun fine _ => ?_⟩
      · rw [Memory.slice_length]
      · rw [← hfate]
        exact fine _

/-! ## Calls that change a partition -/

namespace Flash

/-- A step that changes one partition only. -/
structure Changes (a : AreaId) (f f' : Flash) : Prop where
  other : ∀ a', a' ≠ a → f'.area a' = f.area a'
  fate : f'.fate = f.fate

variable {a : AreaId} {f f₁ f₂ : Flash}

/-- What changes one partition twice changes that partition. -/
theorem Changes.trans (h₁ : f.Changes a f₁) (h₂ : f₁.Changes a f₂) : f.Changes a f₂ :=
  ⟨fun a' h => (h₂.other a' h).trans (h₁.other a' h), h₂.fate.trans h₁.fate⟩

/-- Where no call fails none will behind a change. -/
theorem Changes.fine (h : f.Changes a f₁) (fine : f.Fine) : f₁.Fine := by
  unfold Fine
  rw [h.fate]
  exact fine

/-- What reads changes nothing, in particular no other partition. -/
theorem Reads.changes {P : Access → Prop} (h : f.Reads P f₁) (a : AreaId) : f.Changes a f₁ :=
  ⟨fun a' _ => h.area a', h.fate⟩

/-- A partition holds what it is set to. -/
@[simp] theorem area_setArea (m : Memory) (a : AreaId) (f : Flash) : (f.setArea m a).area a = m := by
  cases a <;> rfl

/-- Setting a partition changes no other. -/
theorem changes_setArea {x : Access} (m : Memory) (a : AreaId) (f : Flash) :
    f.Changes a ((f.record x).setArea m a) := by
  refine ⟨fun a' h => ?_, by cases a <;> rfl⟩
  cases a <;> cases a' <;> first | rfl | exact absurd rfl h

end Flash

/-- Bytes that a partition takes at an offset. -/
structure Fits (p : Partition) (off len : Nat) : Prop where
  room : off + len ≤ p.size
  offset : off % p.align = 0
  length : len % p.align = 0

/-- What a write does. -/
theorem flashAreaWrite_spec (b : Board) (a : AreaId) (off : Nat) (bytes : List UInt8) (f : Flash) :
    ∃ f' ret, flashAreaWrite b a off bytes f = (f', ret) ∧ f.Changes a f' ∧
      (f.area a).AgreeOff (f'.area a) off (off + bytes.length) ∧
      (ret = .ok → f'.area a = (f.area a).copy off bytes) ∧
      (f.Fine → Fits (b.partition a) off bytes.length → ret = .ok) := by
  unfold flashAreaWrite
  dsimp only
  have record : f.Changes a (f.record (.write a off bytes.length)) :=
    (Flash.reads_record (P := fun _ => True) trivial f).changes a
  have same : (f.record (.write a off bytes.length)).area a = f.area a := by cases a <;> rfl
  split
  · rename_i hbad
    refine ⟨_, _, rfl, record, ?_, fun h => (by cases h), fun _ fits => ?_⟩
    · rw [same]
      exact .refl _ _ _
    · obtain ⟨hroom, hoff, hlen⟩ := fits
      omega
  · cases hfate : f.next.ret with
    | ok =>
      refine ⟨_, _, rfl, Flash.changes_setArea _ a f, ?_, fun _ => ?_, fun _ _ => rfl⟩
      · rw [Flash.area_setArea]
        exact Memory.copy_agreeOff _ _ _
      · rw [Flash.area_setArea]
    | err e =>
      refine ⟨_, _, rfl, Flash.changes_setArea _ a f, ?_, fun h => (by cases h), fun fine _ => ?_⟩
      · rw [Flash.area_setArea]
        have := Memory.copy_agreeOff (f.area a) off (f.next.junk.slice off bytes.length)
        rwa [Memory.slice_length] at this
      · rw [← hfate]
        exact fine _

/-- A write that fits has the outcome that is its fate. -/
theorem flashAreaWrite_of_fits {b : Board} {a : AreaId} {off : Nat} {bytes : List UInt8}
    (fits : Fits (b.partition a) off bytes.length) (f : Flash) :
    (flashAreaWrite b a off bytes f).1.calls = f.calls + 1 ∧
      (flashAreaWrite b a off bytes f).2 = f.next.ret := by
  obtain ⟨hroom, hoff, hlen⟩ := fits
  unfold flashAreaWrite
  dsimp only
  rw [if_neg (by
    rintro (h | h | h)
    · omega
    · exact h hoff
    · exact h hlen)]
  cases f.next.ret <;> cases a <;> exact ⟨rfl, rfl⟩

/-- A write that succeeds fits. -/
theorem fits_of_flashAreaWrite {b : Board} {a : AreaId} {off : Nat} {bytes : List UInt8} {f f' : Flash}
    (h : flashAreaWrite b a off bytes f = (f', .ok)) : Fits (b.partition a) off bytes.length := by
  unfold flashAreaWrite at h
  dsimp only at h
  split at h
  · cases h
  · rename_i hfits
    obtain ⟨hroom, hfits⟩ := not_or.mp hfits
    obtain ⟨hoff, hlen⟩ := not_or.mp hfits
    exact ⟨Nat.not_lt.mp hroom, not_not.mp hoff, not_not.mp hlen⟩

/-- What an erase does. -/
theorem flashAreaFlatten_spec (b : Board) (a : AreaId) (f : Flash) :
    ∃ f' ret, flashAreaFlatten b a f = (f', ret) ∧ f.Changes a f' ∧
      (ret = .ok → f'.area a = (f.area a).fill 0 (b.partition a).size 0xff) ∧
      (f.Fine → ret = .ok) := by
  unfold flashAreaFlatten
  dsimp only
  cases hfate : f.next.ret with
  | ok =>
    exact ⟨_, _, rfl, Flash.changes_setArea _ a f, fun _ => Flash.area_setArea .., fun _ => rfl⟩
  | err e =>
    refine ⟨_, _, rfl, Flash.changes_setArea _ a f, fun h => (by cases h), fun fine => ?_⟩
    rw [← hfate]
    exact fine _

end Rtbus.Image
