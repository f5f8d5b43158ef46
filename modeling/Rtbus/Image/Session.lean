import Mathlib.Algebra.Order.Group.Nat
import Mathlib.Data.Nat.Basic
import Rtbus.Image.Store

/-!
# A session of the image store

`Gathered` is what holds between two writes of a session: the bytes given so far are those written
to the partition followed by those in the buffer. Whatever the sizes of the chunks, a write adds its
bytes at the end. `Session` adds the counters, and that the partition is erased behind what was
written to it.

Each lemma about a call says what the call keeps whatever the flash does, what it has done if it
returns 0, and that it returns 0 if no call of the flash fails.
-/

namespace Rtbus.Image

variable (b : Board)

/-- The bytes that were gathered are in the partition, up to the offset, and in the buffer. -/
structure Gathered (d : List UInt8) (s : Store) : Prop where
  area : s.ctx.flashArea = some b.directStoreArea
  align : s.ctx.flashAlign = (b.partition b.directStoreArea).align
  alignPos : 0 < s.ctx.flashAlign
  alignLe : s.ctx.flashAlign ≤ b.flashPendingMax
  offset : b.flashPendingMax ∣ s.ctx.flashWriteOffset
  pending : s.ctx.flashPending.length ≤ b.flashPendingMax
  bytes : (s.flash.area b.directStoreArea).slice 0 s.ctx.flashWriteOffset ++ s.ctx.flashPending = d

/-- The partition is erased from an offset on. -/
def ErasedFrom (a : AreaId) (off : Nat) (f : Flash) : Prop :=
  ∀ x, off ≤ x → x < (b.partition a).size → f.area a x = 0xff

/-- An open session for an image of `size` bytes, with the bytes given so far. -/
structure Session (size : Nat) (d : List UInt8) (s : Store) : Prop extends Gathered b d s where
  erased : ErasedFrom b b.directStoreArea s.ctx.flashWriteOffset s.flash
  notFull : s.ctx.flashPending.length < b.flashPendingMax
  active : s.ctx.active = true
  expected : s.ctx.expectedSize = size
  written : s.ctx.written = d.length
  room : d.length ≤ size
  header : imageHeaderSize ≤ size
  slot : size ≤ b.slot.size
  partition : size ≤ (b.partition b.directStoreArea).size

/-- The layout under which a session succeeds: the write blocks are positive,
divide the buffer, the 128 bytes of a commit and the partitions. -/
structure Board.Geometry : Prop where
  pendingPos : 0 < b.flashPendingMax
  storeAlign : 0 < (b.partition b.directStoreArea).align
  storeAlignPending : (b.partition b.directStoreArea).align ∣ b.flashPendingMax
  storeAlignSize : (b.partition b.directStoreArea).align ∣ (b.partition b.directStoreArea).size
  slotAlign : 0 < b.slot.align
  slotAlignBlock : b.slot.align ∣ 128
  slotAlignSize : b.slot.align ∣ b.slot.size

variable {b}

/-- Only the buffer and the flash differ. -/
structure SameCounters (s s' : Store) : Prop where
  area : s'.ctx.flashArea = s.ctx.flashArea
  align : s'.ctx.flashAlign = s.ctx.flashAlign
  expected : s'.ctx.expectedSize = s.ctx.expectedSize
  written : s'.ctx.written = s.ctx.written
  active : s'.ctx.active = s.ctx.active

theorem SameCounters.refl (s : Store) : SameCounters s s := ⟨rfl, rfl, rfl, rfl, rfl⟩

/-- Counters that stay twice have stayed. -/
theorem SameCounters.trans {s s₁ s₂ : Store} (h₁ : SameCounters s s₁) (h₂ : SameCounters s₁ s₂) :
    SameCounters s s₂ :=
  ⟨h₂.area.trans h₁.area, h₂.align.trans h₁.align, h₂.expected.trans h₁.expected,
    h₂.written.trans h₁.written, h₂.active.trans h₁.active⟩

/-! ## Writing out the buffer -/

/-- Rounding up does not make smaller. -/
theorem le_roundUp {x align : Nat} (pos : 0 < align) : x ≤ roundUp x align := by
  have hdiv := Nat.div_add_mod (x + (align - 1)) align
  have hmod := Nat.mod_lt (x + (align - 1)) pos
  rw [Nat.mul_comm] at hdiv
  unfold roundUp
  omega

/-- What fits fits rounded up, between aligned bounds. -/
theorem roundUp_le {x off align size : Nat} (pos : 0 < align) (hoff : align ∣ off)
    (hsize : align ∣ size) (room : off + x ≤ size) : off + roundUp x align ≤ size := by
  obtain ⟨k, rfl⟩ := hoff
  obtain ⟨n, rfl⟩ := hsize
  have hx : x ≤ align * (n - k) := by
    rw [Nat.mul_sub]
    omega
  have hdiv : (x + (align - 1)) / align ≤ n - k := by
    refine Nat.lt_succ_iff.mp ((Nat.div_lt_iff_lt_mul pos).mpr ?_)
    rw [Nat.succ_mul, Nat.mul_comm]
    omega
  have hk : k ≤ n := by
    by_contra h
    have : align * n < align * k := Nat.mul_lt_mul_of_pos_left (by omega) pos
    omega
  unfold roundUp
  calc align * k + (x + (align - 1)) / align * align
      ≤ align * k + (n - k) * align := Nat.add_le_add_left (Nat.mul_le_mul_right _ hdiv) _
    _ = align * n := by rw [Nat.mul_comm (n - k), ← Nat.mul_add, Nat.add_sub_cancel' hk]

/-- A slice of known length that starts with known bytes. -/
theorem slice_of_append {m : Memory} {a : Nat} {l₁ l₂ : List UInt8}
    (h : m.slice a (l₁ ++ l₂).length = l₁ ++ l₂) :
    m.slice a l₁.length = l₁ ∧ m.slice (a + l₁.length) l₂.length = l₂ := by
  rw [List.length_append, Memory.slice_add] at h
  exact List.append_inj h (Memory.slice_length ..)

/-- The bytes given so far are those written and those that wait. -/
theorem Gathered.length {d : List UInt8} {s : Store} (g : Gathered b d s) :
    d.length = s.ctx.flashWriteOffset + s.ctx.flashPending.length := by
  rw [← g.bytes, List.length_append, Memory.slice_length]

/-- With the buffer written behind the bytes that are in the partition, all is there. -/
theorem Gathered.stored {d : List UInt8} {s : Store} (g : Gathered b d s) (pad : List UInt8) :
    ((s.flash.area b.directStoreArea).copy s.ctx.flashWriteOffset
      (s.ctx.flashPending ++ pad)).slice 0 d.length = d := by
  have frame := Memory.copy_agreeOff (s.flash.area b.directStoreArea) s.ctx.flashWriteOffset
    (s.ctx.flashPending ++ pad)
  obtain ⟨hpending, _⟩ := slice_of_append (Memory.slice_copy (s.flash.area b.directStoreArea)
    s.ctx.flashWriteOffset (s.ctx.flashPending ++ pad))
  rw [g.length, Memory.slice_add, Nat.zero_add, hpending, frame.slice_eq (.inl (by omega)), g.bytes]

/-- What is written behind the buffer is padding. -/
theorem erasedFrom_copy {a : AreaId} {f f' : Flash} {off n : Nat} {bytes : List UInt8}
    (h : ErasedFrom b a off f)
    (hcopy : f'.area a = (f.area a).copy off (bytes ++ List.replicate n 0xff)) :
    ErasedFrom b a (off + bytes.length) f' := by
  intro x hlo hhi
  have frame := Memory.copy_agreeOff (f.area a) off (bytes ++ List.replicate n 0xff)
  obtain ⟨_, hpad⟩ := slice_of_append
    (Memory.slice_copy (f.area a) off (bytes ++ List.replicate n 0xff))
  rw [List.length_append, List.length_replicate] at frame
  rw [List.length_replicate] at hpad
  rw [hcopy]
  by_cases hx : x < off + bytes.length + n
  · have := Memory.getElem?_slice ((f.area a).copy off (bytes ++ List.replicate n 0xff))
      (a := off + bytes.length) (show x - (off + bytes.length) < n by omega)
    rw [hpad, List.getElem?_replicate, if_pos (by omega), Nat.add_sub_cancel' (by omega)] at this
    exact (Option.some.inj this).symm
  · rw [frame x (by omega)]
    exact h x (by omega) hhi

/-- Turns of `rtbus_image_store_flush_flash` that write, in terms of the call of the flash. -/
theorem flush_eq {final : Bool} {s : Store} {area : AreaId} (harea : s.ctx.flashArea = some area)
    (halign : 0 < s.ctx.flashAlign ∧ s.ctx.flashAlign ≤ b.flashPendingMax)
    (hdvd : s.ctx.flashAlign ∣ b.flashPendingMax)
    (hne : s.ctx.flashPending.length ≠ 0)
    (hfull : final = true ∨ b.flashPendingMax ≤ s.ctx.flashPending.length) :
    imageStoreFlushFlash b final s =
      let writeLen :=
        if final then roundUp s.ctx.flashPending.length s.ctx.flashAlign else b.flashPendingMax
      match flashAreaWrite b area s.ctx.flashWriteOffset (s.ctx.flashPending ++
          List.replicate (writeLen - s.ctx.flashPending.length) 0xff) s.flash with
      | (f, .err e) => ({ s with flash := f }, .err e)
      | (f, .ok) =>
        (⟨{ s.ctx with
            flashWriteOffset := s.ctx.flashWriteOffset + writeLen
            flashPending := [] }, f⟩, .ok) := by
  unfold imageStoreFlushFlash
  rw [harea]
  refine (if_neg ?_).trans ((if_neg hne).trans (if_neg ?_))
  · rintro (h | h | h)
    · omega
    · omega
    · exact h (Nat.mod_eq_zero_of_dvd hdvd)
  · rintro ⟨hfinal, hlt⟩
    rcases hfull with h | h
    · rw [h] at hfinal
      cases hfinal
    · omega

/-- A flush between two writes waits until the buffer is full. -/
theorem flush_of_room {s : Store} {area : AreaId} (harea : s.ctx.flashArea = some area)
    (halign : 0 < s.ctx.flashAlign ∧ s.ctx.flashAlign ≤ b.flashPendingMax)
    (hdvd : s.ctx.flashAlign ∣ b.flashPendingMax)
    (hroom : s.ctx.flashPending.length < b.flashPendingMax) :
    imageStoreFlushFlash b false s = (s, .ok) := by
  unfold imageStoreFlushFlash
  rw [harea]
  dsimp only
  rw [if_neg (by
    rintro (h | h | h)
    · omega
    · omega
    · exact h (Nat.mod_eq_zero_of_dvd hdvd))]
  split
  · rfl
  · rw [if_pos ⟨rfl, hroom⟩]

/-- What a flush between two writes does. -/
theorem flush_spec {d : List UInt8} {s : Store} (g : Gathered b d s) :
    ∃ s' ret, imageStoreFlushFlash b false s = (s', ret) ∧ SameCounters s s' ∧
      s.flash.Changes b.directStoreArea s'.flash ∧ Gathered b d s' ∧
      (ret = .ok → s'.ctx.flashPending.length < b.flashPendingMax) ∧
      (ret = .ok → ErasedFrom b b.directStoreArea s.ctx.flashWriteOffset s.flash →
        ErasedFrom b b.directStoreArea s'.ctx.flashWriteOffset s'.flash) ∧
      (s.flash.Fine → b.Geometry → d.length ≤ (b.partition b.directStoreArea).size → ret = .ok) := by
  have hlen := g.length
  have hpos := g.alignPos
  have hle := g.alignLe
  have unchanged : s.flash.Changes b.directStoreArea s.flash := ⟨fun _ _ => rfl, rfl⟩
  by_cases hdvd : s.ctx.flashAlign ∣ b.flashPendingMax
  · by_cases hfull : s.ctx.flashPending.length < b.flashPendingMax
    · exact ⟨s, .ok, flush_of_room g.area ⟨hpos, hle⟩ hdvd hfull, .refl s, unchanged, g,
        fun _ => hfull, fun _ h => h, fun _ _ _ => rfl⟩
    · have hmax : s.ctx.flashPending.length = b.flashPendingMax := by
        have := g.pending
        omega
      obtain ⟨f', ret, hwrite, changes, frame, hok, hfine⟩ := flashAreaWrite_spec b
        b.directStoreArea s.ctx.flashWriteOffset (s.ctx.flashPending ++
          List.replicate (b.flashPendingMax - s.ctx.flashPending.length) 0xff) s.flash
      rw [flush_eq g.area ⟨hpos, hle⟩ hdvd (by omega) (.inr (by omega))]
      simp only [Bool.false_eq_true, if_false]
      rw [hwrite]
      cases ret with
      | err e =>
        refine ⟨_, _, rfl, ⟨rfl, rfl, rfl, rfl, rfl⟩, changes, ?_, fun h => (by cases h),
          fun h => (by cases h), fun fine geometry room => ?_⟩
        · have bytes := g.bytes
          rw [← frame.slice_eq (.inl (by omega))] at bytes
          exact { g with bytes := bytes }
        · cases hfine fine ⟨by simp only [List.length_append, List.length_replicate]; omega,
            Nat.mod_eq_zero_of_dvd (g.align ▸ Nat.dvd_trans hdvd g.offset), by
              rw [List.length_append, List.length_replicate,
                show s.ctx.flashPending.length + (b.flashPendingMax - s.ctx.flashPending.length) =
                  b.flashPendingMax by omega]
              exact Nat.mod_eq_zero_of_dvd (g.align ▸ hdvd)⟩
      | ok =>
        refine ⟨_, _, rfl, ⟨rfl, rfl, rfl, rfl, rfl⟩, changes, ?_, fun _ => ?_, fun _ erased => ?_,
          fun _ _ _ => rfl⟩
        · have stored := g.stored
            (List.replicate (b.flashPendingMax - s.ctx.flashPending.length) 0xff)
          rw [← hok rfl] at stored
          exact
            { area := g.area, align := g.align, alignPos := hpos, alignLe := hle
              offset := Nat.dvd_add g.offset (Nat.dvd_refl _)
              pending := Nat.zero_le _
              bytes := by
                rw [hlen, hmax] at stored
                exact (List.append_nil _).trans stored }
        · show 0 < b.flashPendingMax
          omega
        · have := erasedFrom_copy erased (hok rfl)
          rwa [hmax] at this
  · refine ⟨s, .err .EINVAL, ?_, .refl s, unchanged, g, fun h => (by cases h),
      fun h => (by cases h), fun _ geometry _ => absurd (g.align ▸ geometry.storeAlignPending) hdvd⟩
    unfold imageStoreFlushFlash
    rw [g.area]
    dsimp only
    rw [if_pos (.inr (.inr fun h => hdvd (Nat.dvd_of_mod_eq_zero h)))]

/-- What the flush at the end does. -/
theorem finalFlush_spec {d : List UInt8} {s : Store} (g : Gathered b d s) :
    ∃ s' ret, imageStoreFlushFlash b true s = (s', ret) ∧ SameCounters s s' ∧
      s.flash.Changes b.directStoreArea s'.flash ∧
      (ret = .ok → (s'.flash.area b.directStoreArea).slice 0 d.length = d) ∧
      (ret = .ok → ErasedFrom b b.directStoreArea s.ctx.flashWriteOffset s.flash →
        ErasedFrom b b.directStoreArea d.length s'.flash) ∧
      (s.flash.Fine → b.Geometry → d.length ≤ (b.partition b.directStoreArea).size → ret = .ok) := by
  have hlen := g.length
  have hpos := g.alignPos
  have unchanged : s.flash.Changes b.directStoreArea s.flash := ⟨fun _ _ => rfl, rfl⟩
  by_cases hdvd : s.ctx.flashAlign ∣ b.flashPendingMax
  · by_cases hempty : s.ctx.flashPending.length = 0
    · have hd : d.length = s.ctx.flashWriteOffset := by omega
      refine ⟨s, .ok, ?_, .refl s, unchanged, fun _ => ?_, fun _ h => by rwa [hd],
        fun _ _ _ => rfl⟩
      · unfold imageStoreFlushFlash
        rw [g.area]
        dsimp only
        rw [if_neg (by
          rintro (h | h | h)
          · omega
          · exact absurd g.alignLe (by omega)
          · exact h (Nat.mod_eq_zero_of_dvd hdvd)), if_pos hempty]
      · have := g.bytes
        rwa [List.length_eq_zero_iff.mp hempty, List.append_nil, ← hd] at this
    · obtain ⟨f', ret, hwrite, changes, _, hok, hfine⟩ := flashAreaWrite_spec b
        b.directStoreArea s.ctx.flashWriteOffset (s.ctx.flashPending ++
          List.replicate (roundUp s.ctx.flashPending.length s.ctx.flashAlign -
            s.ctx.flashPending.length) 0xff) s.flash
      rw [flush_eq g.area ⟨hpos, g.alignLe⟩ hdvd hempty (.inl rfl)]
      simp only [if_true]
      rw [hwrite]
      cases ret with
      | err e =>
        refine ⟨_, _, rfl, ⟨rfl, rfl, rfl, rfl, rfl⟩, changes, fun h => (by cases h),
          fun h => (by cases h), fun fine geometry room => ?_⟩
        have hup := le_roundUp (x := s.ctx.flashPending.length) hpos
        have hoff : s.ctx.flashAlign ∣ s.ctx.flashWriteOffset := Nat.dvd_trans hdvd g.offset
        have hfit := roundUp_le hpos hoff (g.align ▸ geometry.storeAlignSize)
          (x := s.ctx.flashPending.length) (by omega)
        cases hfine fine ⟨by simp only [List.length_append, List.length_replicate]; omega,
          Nat.mod_eq_zero_of_dvd (g.align ▸ hoff), by
            rw [List.length_append, List.length_replicate, Nat.add_sub_cancel' hup, ← g.align]
            exact Nat.mul_mod_left _ _⟩
      | ok =>
        refine ⟨_, _, rfl, ⟨rfl, rfl, rfl, rfl, rfl⟩, changes, fun _ => ?_, fun _ erased => ?_,
          fun _ _ _ => rfl⟩
        · dsimp only
          rw [hok rfl]
          exact g.stored _
        · rw [hlen]
          exact erasedFrom_copy erased (hok rfl)
  · refine ⟨s, .err .EINVAL, ?_, .refl s, unchanged, fun h => (by cases h), fun h => (by cases h),
      fun _ geometry _ => absurd (g.align ▸ geometry.storeAlignPending) hdvd⟩
    unfold imageStoreFlushFlash
    rw [g.area]
    dsimp only
    rw [if_pos (.inr (.inr fun h => hdvd (Nat.dvd_of_mod_eq_zero h)))]

/-! ## Writing -/

/-- The `memcpy` of a turn: more bytes in the buffer. -/
def Store.buffer (s : Store) (more : List UInt8) : Store :=
  { s with ctx := { s.ctx with flashPending := s.ctx.flashPending ++ more } }

/-- More of them wait in the buffer. -/
theorem Gathered.buffer {d : List UInt8} {s : Store} (g : Gathered b d s) (more : List UInt8)
    (room : s.ctx.flashPending.length + more.length ≤ b.flashPendingMax) :
    Gathered b (d ++ more) (s.buffer more) :=
  { area := g.area, align := g.align, alignPos := g.alignPos, alignLe := g.alignLe
    offset := g.offset
    pending := by
      show (s.ctx.flashPending ++ more).length ≤ _
      rw [List.length_append]
      exact room
    bytes := by
      show (s.flash.area b.directStoreArea).slice 0 s.ctx.flashWriteOffset ++
        (s.ctx.flashPending ++ more) = _
      rw [← List.append_assoc, g.bytes] }

/-- The loop adds a prefix of the data, and all of it if it succeeds. A turn takes a byte at least,
unless the buffer was full before it. -/
theorem storeWriteLoop_spec (turns : Nat) (data : List UInt8) {d : List UInt8} {s : Store}
    (g : Gathered b d s)
    (enough : data.length ≤ turns ∧
      (s.ctx.flashPending.length < b.flashPendingMax ∨ data.length < turns)) :
    ∃ s' ret taken, storeWriteLoop b turns data s = (s', ret) ∧ SameCounters s s' ∧
      s.flash.Changes b.directStoreArea s'.flash ∧ Gathered b (d ++ data.take taken) s' ∧
      (ret = .ok → data.length ≤ taken ∧ (s.ctx.flashPending.length < b.flashPendingMax →
        s'.ctx.flashPending.length < b.flashPendingMax)) ∧
      (ret = .ok → ErasedFrom b b.directStoreArea s.ctx.flashWriteOffset s.flash →
        ErasedFrom b b.directStoreArea s'.ctx.flashWriteOffset s'.flash) ∧
      (s.flash.Fine → b.Geometry →
        d.length + data.length ≤ (b.partition b.directStoreArea).size → ret = .ok) := by
  induction turns generalizing d data s with
  | zero =>
    have hdata : data.length = 0 := by omega
    exact ⟨s, .ok, 0, rfl, .refl s, ⟨fun _ _ => rfl, rfl⟩, by simpa using g,
      fun _ => ⟨by omega, id⟩, fun _ h => h, fun _ _ _ => rfl⟩
  | succ turns ih =>
    unfold storeWriteLoop
    by_cases hdata : data = []
    · rw [if_pos hdata, hdata]
      exact ⟨s, .ok, 0, rfl, .refl s, ⟨fun _ _ => rfl, rfl⟩, by simpa using g,
        fun _ => ⟨Nat.zero_le _, id⟩, fun _ h => h, fun _ _ _ => rfl⟩
    · rw [if_neg hdata]
      dsimp only
      have hpos := List.length_pos_iff.mpr hdata
      have hpending := g.pending
      generalize hcopy : min data.length (b.flashPendingMax - s.ctx.flashPending.length) = copyLen
      have htake : (data.take copyLen).length = copyLen := by
        rw [List.length_take]
        omega
      have g₁ := g.buffer (data.take copyLen) (by omega)
      obtain ⟨s₂, ret, hflush, counters, changes, g₂, hroom, herased, hfine⟩ := flush_spec g₁
      unfold Store.buffer at hflush
      rw [hflush]
      have counters₂ : SameCounters s s₂ :=
        ⟨counters.area, counters.align, counters.expected, counters.written, counters.active⟩
      cases ret with
      | err e =>
        refine ⟨s₂, _, copyLen, rfl, counters₂, changes, g₂, fun h => (by cases h),
          fun h => (by cases h), fun fine geometry room => ?_⟩
        cases hfine fine geometry (by rw [List.length_append, htake]; omega)
      | ok =>
        have hroom := hroom rfl
        obtain ⟨s₃, ret, taken, hloop, counters₃, changes₃, g₃, hok, herased₃, hfine₃⟩ :=
          ih (data.drop copyLen) g₂ (by rw [List.length_drop]; omega)
        refine ⟨s₃, ret, copyLen + taken, hloop, counters₂.trans counters₃, changes.trans changes₃,
          ?_, fun h => ⟨?_, fun _ => (hok h).2 hroom⟩, fun h e => herased₃ h (herased rfl e),
          fun fine geometry room => hfine₃ (changes.fine fine) geometry ?_⟩
        · rwa [List.append_assoc, ← List.take_add] at g₃
        · have := (hok h).1
          rw [List.length_drop] at this
          omega
        · rw [List.length_append, htake, List.length_drop]
          omega

/-- After a flush that succeeds the buffer has room. -/
theorem flush_room (pos : 0 < b.flashPendingMax) {s s' : Store}
    (h : imageStoreFlushFlash b false s = (s', .ok)) :
    s'.ctx.flashPending.length < b.flashPendingMax := by
  unfold imageStoreFlushFlash at h
  split at h
  · cases h
  · split at h
    · cases h
    · split at h
      · cases h
        omega
      · split at h
        · rename_i hfew
          cases h
          exact hfew.2
        · dsimp only at h
          split at h
          · cases h
          · cases h
            exact pos

/-- The turns that `rtbus_image_store_write_flash` is given are enough: with more of them it does
the same. -/
theorem storeWriteLoop_enough (pos : 0 < b.flashPendingMax) {turns more : Nat} {data : List UInt8}
    {s : Store} (enough : data.length ≤ turns ∧
      (s.ctx.flashPending.length < b.flashPendingMax ∨ data.length < turns)) :
    storeWriteLoop b (turns + more) data s = storeWriteLoop b turns data s := by
  induction turns generalizing data s with
  | zero =>
    obtain rfl : data = [] := List.length_eq_zero_iff.mp (by omega)
    cases more with
    | zero => rfl
    | succ more => rfl
  | succ turns ih =>
    rw [show turns + 1 + more = turns + more + 1 by omega]
    unfold storeWriteLoop
    by_cases hdata : data = []
    · rw [if_pos hdata, if_pos hdata]
    · rw [if_neg hdata, if_neg hdata]
      dsimp only
      have hpos := List.length_pos_iff.mpr hdata
      cases hflush : imageStoreFlushFlash b false { s with ctx := { s.ctx with
        flashPending := s.ctx.flashPending ++
          data.take (min data.length (b.flashPendingMax - s.ctx.flashPending.length)) } } with
      | mk s₂ ret =>
        cases ret with
        | err e => rfl
        | ok =>
          have hroom := flush_room pos hflush
          exact ih (by rw [List.length_drop]; omega)

/-! ## The calls of a session -/

/-- What begin does: it opens a session or leaves the store inactive, and it opens one if no call of
the flash fails and the image has a size that fits. -/
theorem imageStoreBegin_spec (size : Nat) {s : Store} (inactive : s.ctx.active = false) :
    ∃ s' ret, imageStoreBegin b size s = (s', ret) ∧
      s.flash.Changes b.directStoreArea s'.flash ∧
      (ret = .ok → Session b size [] s') ∧ (ret ≠ .ok → s'.ctx.active = false) ∧
      (s.flash.Fine → b.Geometry → imageHeaderSize ≤ size → size ≤ b.slot.size →
        size ≤ (b.partition b.directStoreArea).size → ret = .ok) := by
  have unchanged : s.flash.Changes b.directStoreArea s.flash := ⟨fun _ _ => rfl, rfl⟩
  have ask : ∀ f : Flash, f.Changes b.directStoreArea f.ask.1 := fun f =>
    (Flash.reads_ask (fun _ => True) f).changes _
  unfold imageStoreBegin
  by_cases hsmall : size < imageHeaderSize
  · rw [if_pos hsmall]
    exact ⟨_, _, rfl, unchanged, fun h => (by cases h), fun _ => inactive,
      fun _ _ h => absurd h (by omega)⟩
  · rw [if_neg hsmall, if_neg (by rw [inactive]; simp)]
    by_cases hslot : size > b.slot.size
    · rw [if_pos hslot]
      exact ⟨_, _, rfl, unchanged, fun h => (by cases h), fun _ => rfl,
        fun _ _ _ h => absurd h (by omega)⟩
    · rw [if_neg hslot]
      dsimp only
      have ask₁ := ask s.flash
      cases hask₁ : s.flash.ask with
      | mk f₁ ret₁ =>
        rw [hask₁] at ask₁
        cases ret₁ with
        | err e =>
          refine ⟨_, _, rfl, ask₁, fun h => (by cases h), fun _ => rfl, fun fine => ?_⟩
          rw [fine.ask] at hask₁
          cases hask₁
        | ok =>
          have ask₂ := ask f₁
          dsimp only
          cases hask₂ : f₁.ask with
          | mk f₂ ret₂ =>
            rw [hask₂] at ask₂
            cases ret₂ with
            | err e =>
              refine ⟨_, _, rfl, ask₁.trans ask₂, fun h => (by cases h), fun _ => rfl,
                fun fine => ?_⟩
              rw [(ask₁.fine fine).ask] at hask₂
              cases hask₂
            | ok =>
              have changes := ask₁.trans ask₂
              dsimp only
              by_cases hbig : size > (b.partition b.directStoreArea).size
              · rw [if_pos hbig]
                exact ⟨_, _, rfl, changes, fun h => (by cases h), fun _ => rfl,
                  fun _ _ _ _ h => absurd h (by omega)⟩
              · rw [if_neg hbig]
                by_cases halign : (b.partition b.directStoreArea).align = 0 ∨
                    (b.partition b.directStoreArea).align > b.flashPendingMax
                · rw [if_pos halign]
                  refine ⟨_, _, rfl, changes, fun h => (by cases h), fun _ => rfl,
                    fun _ geometry => ?_⟩
                  have := geometry.storeAlign
                  have := Nat.le_of_dvd geometry.pendingPos geometry.storeAlignPending
                  omega
                · rw [if_neg halign]
                  obtain ⟨f₃, ret, hflatten, changes₃, hok, hfine⟩ :=
                    flashAreaFlatten_spec b b.directStoreArea f₂
                  rw [hflatten]
                  cases ret with
                  | err e =>
                    refine ⟨_, _, rfl, changes.trans changes₃, fun h => (by cases h),
                      fun _ => rfl, fun fine => ?_⟩
                    cases hfine (changes.fine fine)
                  | ok =>
                    refine ⟨_, _, rfl, changes.trans changes₃, fun _ => ?_,
                      fun h => absurd rfl h, fun _ _ _ _ _ => rfl⟩
                    obtain ⟨hpos, hle⟩ := not_or.mp halign
                    exact
                      { area := rfl, align := rfl, alignPos := Nat.pos_of_ne_zero hpos
                        alignLe := Nat.not_lt.mp hle
                        offset := Nat.dvd_zero _, pending := Nat.zero_le _, bytes := rfl
                        erased := fun x _ hx => by
                          dsimp only
                          rw [hok rfl]
                          exact if_pos ⟨Nat.zero_le x, by omega⟩
                        notFull := Nat.lt_of_lt_of_le (Nat.pos_of_ne_zero hpos) (Nat.not_lt.mp hle)
                        active := rfl, expected := rfl, written := rfl, room := Nat.zero_le _
                        header := by omega, slot := by omega, partition := by omega }

/-- What a write does in a session: it refuses, or adds its data. -/
theorem imageStoreWrite_spec {size : Nat} (offset : Nat) {d : List UInt8} (data : List UInt8)
    {s : Store} (session : Session b size d s) :
    ∃ s' ret, imageStoreWrite b offset data s = (s', ret) ∧
      s.flash.Changes b.directStoreArea s'.flash ∧ s'.ctx.active = true ∧
      (ret = .ok → offset = d.length ∧ Session b size (d ++ data) s') ∧
      (s.flash.Fine → b.Geometry → offset = d.length → d.length + data.length ≤ size →
        ret = .ok) := by
  have unchanged : s.flash.Changes b.directStoreArea s.flash := ⟨fun _ _ => rfl, rfl⟩
  have hroom := session.room
  have hwritten := session.written
  have hexpected := session.expected
  unfold imageStoreWrite
  rw [if_neg (by rw [session.active]; simp)]
  by_cases hoffset : offset = s.ctx.written
  · rw [if_neg (not_not.mpr hoffset)]
    by_cases hbig : data.length > s.ctx.expectedSize - s.ctx.written
    · rw [if_pos hbig]
      exact ⟨_, _, rfl, unchanged, session.active, fun h => (by cases h),
        fun _ _ _ h => absurd h (by omega)⟩
    · rw [if_neg hbig]
      unfold imageStoreWriteFlash
      rw [if_neg (by rw [session.area]; simp [hoffset])]
      obtain ⟨s₁, ret, taken, hloop, counters, changes, g, hok, herased, hfine⟩ :=
        storeWriteLoop_spec (data.length + 2) data session.toGathered
          ⟨by omega, .inl session.notFull⟩
      rw [hloop]
      cases ret with
      | err e =>
        refine ⟨_, _, rfl, changes, counters.active.trans session.active, fun h => (by cases h),
          fun fine geometry _ room => ?_⟩
        cases hfine fine geometry (Nat.le_trans room session.partition)
      | ok =>
        obtain ⟨htaken, hfull⟩ := hok rfl
        rw [List.take_of_length_le htaken] at g
        refine ⟨_, _, rfl, changes, counters.active.trans session.active,
          fun _ => ⟨hoffset.trans hwritten, ?_⟩, fun _ _ _ _ => rfl⟩
        exact
          { area := g.area, align := g.align, alignPos := g.alignPos, alignLe := g.alignLe
            offset := g.offset, pending := g.pending, bytes := g.bytes
            erased := herased rfl session.erased
            notFull := hfull session.notFull
            active := counters.active.trans session.active
            expected := counters.expected.trans hexpected
            written := by
              show s₁.ctx.written + data.length = _
              rw [counters.written, hwritten, List.length_append]
            room := by rw [List.length_append]; omega
            header := session.header, slot := session.slot, partition := session.partition }
  · rw [if_pos hoffset]
    exact ⟨_, _, rfl, unchanged, session.active, fun h => (by cases h),
      fun _ _ h => absurd (h.trans hwritten.symm) hoffset⟩

variable (b) in
/-- A caller that writes chunks one behind the other from an offset on; `none` if a write fails. -/
def imageStoreChunks : Nat → List (List UInt8) → Store → Option Store
  | _, [], s => some s
  | offset, chunk :: chunks, s =>
    match imageStoreWrite b offset chunk s with
    | (_, .err _) => none
    | (s, .ok) => imageStoreChunks (offset + chunk.length) chunks s

/-- The chunks of a caller that succeeds are gathered in order. -/
theorem imageStoreChunks_some {size offset : Nat} {d : List UInt8} {chunks : List (List UInt8)}
    {s s' : Store} (session : Session b size d s)
    (run : imageStoreChunks b offset chunks s = some s') : Session b size (d ++ chunks.flatten) s' := by
  induction chunks generalizing offset d s with
  | nil =>
    cases run
    simpa using session
  | cons chunk chunks ih =>
    obtain ⟨s₁, ret, hwrite, _, _, hok, _⟩ :=
      imageStoreWrite_spec offset chunk session
    unfold imageStoreChunks at run
    rw [hwrite] at run
    cases ret with
    | err e => cases run
    | ok =>
      have := ih (hok rfl).2 run
      rwa [List.append_assoc] at this

/-- Without failures of the flash, chunks of any sizes are taken as long as the image has room. -/
theorem imageStoreChunks_fine {size : Nat} {d : List UInt8} {chunks : List (List UInt8)} {s : Store}
    (session : Session b size d s) (fine : s.flash.Fine) (geometry : b.Geometry)
    (room : d.length + chunks.flatten.length ≤ size) :
    ∃ s', imageStoreChunks b d.length chunks s = some s' ∧ s'.flash.Fine := by
  induction chunks generalizing d s with
  | nil => exact ⟨s, rfl, fine⟩
  | cons chunk chunks ih =>
    rw [List.flatten_cons, List.length_append] at room
    obtain ⟨s₁, ret, hwrite, changes, _, hok, hfine⟩ :=
      imageStoreWrite_spec d.length chunk session
    obtain rfl := hfine fine geometry rfl (by omega)
    obtain ⟨s', hrun, fine'⟩ := ih (hok rfl).2 (changes.fine fine) (by
      rw [List.length_append]
      omega)
    refine ⟨s', ?_, fine'⟩
    unfold imageStoreChunks
    rw [hwrite]
    rwa [List.length_append] at hrun

/-! ## Open until the finish -/

/-- A flush does not end the session. -/
theorem flush_active (final : Bool) (s : Store) :
    (imageStoreFlushFlash b final s).1.ctx.active = s.ctx.active := by
  unfold imageStoreFlushFlash
  split
  · rfl
  · split
    · rfl
    · split
      · rfl
      · split
        · rfl
        · dsimp only
          split <;> rfl

/-- Nor does the loop. -/
theorem storeWriteLoop_active (turns : Nat) (data : List UInt8) (s : Store) :
    (storeWriteLoop b turns data s).1.ctx.active = s.ctx.active := by
  induction turns generalizing data s with
  | zero => rfl
  | succ turns ih =>
    unfold storeWriteLoop
    split
    · rfl
    · dsimp only
      have hflush := flush_active (b := b) false { s with ctx := { s.ctx with
        flashPending := s.ctx.flashPending ++
          data.take (min data.length (b.flashPendingMax - s.ctx.flashPending.length)) } }
      split
      · rename_i heq
        rw [heq] at hflush
        exact hflush
      · rename_i heq
        rw [heq] at hflush
        exact (ih _ _).trans hflush

/-- A write leaves the session open, whatever it returns. -/
theorem imageStoreWrite_active (offset : Nat) (data : List UInt8) (s : Store) :
    (imageStoreWrite b offset data s).1.ctx.active = s.ctx.active := by
  unfold imageStoreWrite
  split
  · rfl
  · split
    · rfl
    · split
      · rfl
      · have hwrite : (imageStoreWriteFlash b offset data s).1.ctx.active = s.ctx.active := by
          unfold imageStoreWriteFlash
          split
          · rfl
          · exact storeWriteLoop_active _ _ _
        split
        · rename_i heq
          rw [heq] at hwrite
          exact hwrite
        · rename_i heq
          rw [heq] at hwrite
          exact hwrite

/-- The finish closes it. -/
theorem imageStoreFinish_closes (b : Board) (status : Ret) (s : Store) :
    (imageStoreFinish b status s).1.ctx.active = false := by
  unfold imageStoreFinish
  by_cases h : s.ctx.active = false
  · rw [if_pos h]
    exact h
  · rw [if_neg h]
    cases status with
    | err e => rfl
    | ok =>
      dsimp only
      split <;> rfl

end Rtbus.Image
