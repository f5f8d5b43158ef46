import Rtbus.Image.Session

/-!
# Retrying a write that failed

`rtbus_image_store_write` counts the bytes of a call only when all of it has succeeded. What a failed
call has taken over into the buffer, and perhaps written out before the flash write that failed,
stays there. The offset check takes the same call again, and the bytes are stored a second time.

`Writing` is what holds of an open session in which writes may have failed. `retry_recovers_iff` says
when the image is complete all the same.
-/

namespace Rtbus.Image

variable (b : Board)

/-- An open session for an image of `size` bytes in which writes may have failed. -/
structure Writing (size : Nat) (d : List UInt8) (s : Store) : Prop extends Gathered b d s where
  active : s.ctx.active = true
  expected : s.ctx.expectedSize = size
  writtenLe : s.ctx.written ≤ d.length
  room : s.ctx.written ≤ size

/-- The flash works again: no call fails from here on. -/
def Store.mend (s : Store) : Store :=
  { s with flash := { s.flash with fate := fun _ => ⟨.ok, fun _ => 0⟩ } }

/-- The first call of the flash that fails is the one with this number from here. -/
structure FailsFirst (f : Flash) (k : Nat) : Prop where
  before : ∀ j < k, (f.fate (f.calls + j)).ret = .ok
  fails : (f.fate (f.calls + k)).ret ≠ .ok

/-- How much of its data a write has taken over when its flash write with this number fails: what the
buffer had room for, and a whole buffer for each flash write before. -/
def takenOver (s : Store) (k : Nat) : Nat :=
  b.flashPendingMax - s.ctx.flashPending.length + k * b.flashPendingMax

/-- The call succeeds when it is repeated, so does what is left of the image and the final flush, and
the image is in the partition at every offset. -/
def RetryRecovers (image : List UInt8) (offset : Nat) (data : List UInt8) (rest : List (List UInt8))
    (s : Store) : Prop :=
  ∃ s₁ s₂ s₃, imageStoreWrite b offset data s = (s₁, .ok) ∧
    imageStoreChunks b (offset + data.length) rest s₁ = some s₂ ∧
    imageStoreFlushFlash b true s₂ = (s₃, .ok) ∧
    (s₃.flash.area b.directStoreArea).slice 0 image.length = image

variable {b}

/-! ## What a write does, failed or not -/

/-- The counters of a write that passes its checks, and what it gathers. -/
theorem imageStoreWrite_writing {size : Nat} (offset : Nat) {d : List UInt8} (data : List UInt8)
    {s : Store} (w : Writing b size d s) : ∃ s' ret d', imageStoreWrite b offset data s = (s', ret) ∧
      Writing b size d' s' ∧ s.flash.Changes b.directStoreArea s'.flash ∧
      (ret = .ok → offset = s.ctx.written ∧ d' = d ++ data ∧
        s'.ctx.written = s.ctx.written + data.length) ∧
      (s.flash.Fine → b.Geometry → offset = s.ctx.written → s.ctx.written + data.length ≤ size →
        d.length + data.length ≤ (b.partition b.directStoreArea).size → ret = .ok) := by
  have unchanged : s.flash.Changes b.directStoreArea s.flash := ⟨fun _ _ => rfl, rfl⟩
  have hroom := w.room
  have hexpected := w.expected
  unfold imageStoreWrite
  rw [if_neg (by rw [w.active]; simp)]
  by_cases hoffset : offset = s.ctx.written
  · rw [if_neg (not_not.mpr hoffset)]
    by_cases hbig : data.length > s.ctx.expectedSize - s.ctx.written
    · rw [if_pos hbig]
      exact ⟨_, _, d, rfl, w, unchanged, fun h => (by cases h), fun _ _ _ h => absurd h (by omega)⟩
    · rw [if_neg hbig]
      unfold imageStoreWriteFlash
      rw [if_neg (by rw [w.area]; simp [hoffset])]
      obtain ⟨s₁, ret, taken, hloop, counters, changes, g, hok, _, hfine⟩ :=
        storeWriteLoop_spec (data.length + 2) data w.toGathered
          ⟨by omega, .inr (by omega)⟩
      have hle := w.writtenLe
      rw [hloop]
      cases ret with
      | err e =>
        refine ⟨_, _, _, rfl, ⟨g, counters.active.trans w.active,
          counters.expected.trans hexpected, ?_, ?_⟩, changes, fun h => (by cases h),
          fun fine geometry _ _ room => ?_⟩
        · rw [counters.written, List.length_append]
          omega
        · rw [counters.written]
          exact hroom
        · cases hfine fine geometry room
      | ok =>
        rw [List.take_of_length_le (hok rfl).1] at g
        refine ⟨_, _, _, rfl, ⟨⟨g.area, g.align, g.alignPos, g.alignLe, g.offset, g.pending, g.bytes⟩,
          counters.active.trans w.active, counters.expected.trans hexpected, ?_, ?_⟩, changes,
          fun _ => ⟨hoffset, rfl, ?_⟩, fun _ _ _ _ _ => rfl⟩
        · show s₁.ctx.written + data.length ≤ _
          rw [counters.written, List.length_append]
          omega
        · show s₁.ctx.written + data.length ≤ size
          rw [counters.written]
          omega
        · show s₁.ctx.written + data.length = _
          rw [counters.written]
  · rw [if_pos hoffset]
    exact ⟨_, _, d, rfl, w, unchanged, fun h => (by cases h), fun _ _ h => absurd h hoffset⟩

/-- A session that is opened is one in which writes may fail. -/
theorem Session.writing {size : Nat} {d : List UInt8} {s : Store} (session : Session b size d s) :
    Writing b size d s :=
  ⟨session.toGathered, session.active, session.expected, Nat.le_of_eq session.written,
    by rw [session.written]; exact session.room⟩

/-- Chunks that are all taken. -/
theorem imageStoreChunks_writing {size offset : Nat} {d : List UInt8} {chunks : List (List UInt8)}
    {s s' : Store} (w : Writing b size d s) (run : imageStoreChunks b offset chunks s = some s') :
    Writing b size (d ++ chunks.flatten) s' := by
  induction chunks generalizing offset d s with
  | nil =>
    cases run
    simpa using w
  | cons chunk chunks ih =>
    obtain ⟨s₁, ret, d', hwrite, w', _, hok, _⟩ := imageStoreWrite_writing offset chunk w
    unfold imageStoreChunks at run
    rw [hwrite] at run
    cases ret with
    | err e => cases run
    | ok =>
      obtain ⟨_, rfl, _⟩ := hok rfl
      have := ih w' run
      rwa [List.append_assoc] at this

/-- Once the flash works, all chunks are taken that the session and the partition have room for. -/
theorem imageStoreChunks_mended {size : Nat} {d : List UInt8} (chunks : List (List UInt8)) {s : Store}
    (w : Writing b size d s) (fine : s.flash.Fine) (geometry : b.Geometry)
    (inside : s.ctx.written + chunks.flatten.length ≤ size)
    (room : d.length + chunks.flatten.length ≤ (b.partition b.directStoreArea).size) :
    ∃ s', imageStoreChunks b s.ctx.written chunks s = some s' ∧ s'.flash.Fine := by
  induction chunks generalizing d s with
  | nil => exact ⟨s, rfl, fine⟩
  | cons chunk chunks ih =>
    rw [List.flatten_cons, List.length_append] at inside room
    obtain ⟨s₁, ret, d', hwrite, w', changes, hok, hfine⟩ :=
      imageStoreWrite_writing s.ctx.written chunk w
    obtain rfl := hfine fine geometry rfl (by omega) (by omega)
    obtain ⟨_, rfl, hwritten⟩ := hok rfl
    obtain ⟨s', hrun, fine'⟩ := ih w' (changes.fine fine) (by omega) (by
      rw [List.length_append]
      omega)
    refine ⟨s', ?_, fine'⟩
    unfold imageStoreChunks
    rw [hwrite]
    rwa [hwritten] at hrun

/-! ## How much a failed write has taken over -/

/-- A flush of a full buffer has the outcome of its flash write. -/
theorem flush_full {d : List UInt8} {s : Store} (g : Gathered b d s)
    (hdvd : s.ctx.flashAlign ∣ b.flashPendingMax) (pos : 0 < b.flashPendingMax)
    (full : s.ctx.flashPending.length = b.flashPendingMax)
    (fit : d.length ≤ (b.partition b.directStoreArea).size) :
    ∃ f', f'.calls = s.flash.calls + 1 ∧ f'.fate = s.flash.fate ∧
      imageStoreFlushFlash b false s = match s.flash.next.ret with
        | .err e => ({ s with flash := f' }, .err e)
        | .ok => (⟨{ s.ctx with
            flashWriteOffset := s.ctx.flashWriteOffset + b.flashPendingMax
            flashPending := [] }, f'⟩, .ok) := by
  have hd := g.length
  have fits : Fits (b.partition b.directStoreArea) s.ctx.flashWriteOffset
      (s.ctx.flashPending ++ List.replicate (b.flashPendingMax - s.ctx.flashPending.length)
        0xff).length := by
    rw [List.length_append, List.length_replicate, full, Nat.sub_self, Nat.add_zero]
    exact ⟨by omega, Nat.mod_eq_zero_of_dvd (g.align ▸ Nat.dvd_trans hdvd g.offset),
      Nat.mod_eq_zero_of_dvd (g.align ▸ hdvd)⟩
  obtain ⟨hcalls, hret⟩ := flashAreaWrite_of_fits fits s.flash
  obtain ⟨f', ret, hwrite, changes, _⟩ := flashAreaWrite_spec b b.directStoreArea
    s.ctx.flashWriteOffset (s.ctx.flashPending ++
      List.replicate (b.flashPendingMax - s.ctx.flashPending.length) 0xff) s.flash
  rw [hwrite] at hcalls hret
  refine ⟨f', hcalls, changes.fate, ?_⟩
  rw [flush_eq g.area ⟨g.alignPos, g.alignLe⟩ hdvd (by omega) (.inr (by omega))]
  simp only [Bool.false_eq_true, if_false]
  rw [hwrite, ← hret]
  cases ret <;> rfl

/-- The loop fails at the first flash write that fails, with what it has taken over until then. -/
theorem storeWriteLoop_err (geometry : b.Geometry) {turns k : Nat} {d data : List UInt8}
    {s s' : Store} {e : Errno} (g : Gathered b d s)
    (fit : d.length + data.length ≤ (b.partition b.directStoreArea).size)
    (first : FailsFirst s.flash k) (h : storeWriteLoop b turns data s = (s', .err e)) :
    takenOver b s k ≤ data.length ∧ Gathered b (d ++ data.take (takenOver b s k)) s' := by
  induction turns generalizing d data s k with
  | zero => cases h
  | succ turns ih =>
    unfold storeWriteLoop at h
    split at h
    · cases h
    · dsimp only at h
      have hpending := g.pending
      have hdvd : s.ctx.flashAlign ∣ b.flashPendingMax := g.align ▸ geometry.storeAlignPending
      generalize hcopy : min data.length (b.flashPendingMax - s.ctx.flashPending.length) = copyLen at h
      have htake : (data.take copyLen).length = copyLen := by
        rw [List.length_take]
        omega
      have g₁ := g.buffer (data.take copyLen) (by omega)
      have hlen : (s.buffer (data.take copyLen)).ctx.flashPending.length =
          s.ctx.flashPending.length + copyLen := by
        unfold Store.buffer
        dsimp only
        rw [List.length_append, htake]
      have hfate : (s.buffer (data.take copyLen)).flash = s.flash := rfl
      have hbuffer : (⟨{ s.ctx with
          flashPending := s.ctx.flashPending ++ data.take copyLen }, s.flash⟩ : Store) =
          s.buffer (data.take copyLen) := rfl
      rw [hbuffer] at h
      by_cases hroom : s.ctx.flashPending.length + copyLen < b.flashPendingMax
      · -- all of the data is in the buffer, and nothing is written
        rw [flush_of_room g₁.area ⟨g₁.alignPos, g₁.alignLe⟩ hdvd (by omega)] at h
        dsimp only at h
        rw [List.drop_of_length_le (by omega)] at h
        cases turns with
        | zero => cases h
        | succ turns =>
          unfold storeWriteLoop at h
          rw [if_pos rfl] at h
          cases h
      · -- the buffer is full and written
        obtain ⟨f₂, hcalls, hfate₂, hfull⟩ := flush_full g₁ hdvd geometry.pendingPos (by omega) (by
          rw [List.length_append, htake]
          omega)
        obtain ⟨s₂, ret, hflush, _, _, g₂, _⟩ := flush_spec g₁
        rw [hfate] at hcalls hfate₂ hfull
        have hnext : s.flash.next = s.flash.fate (s.flash.calls + 0) := rfl
        rw [hflush] at hfull h
        cases k with
        | zero =>
          cases hret : s.flash.next.ret with
          | ok => exact absurd (hnext ▸ hret) first.fails
          | err e₂ =>
            rw [hret] at hfull
            cases hfull
            cases h
            have htaken : takenOver b s 0 = copyLen := by
              unfold takenOver
              omega
            rw [htaken]
            exact ⟨by omega, g₂⟩
        | succ k =>
          rw [hnext, first.before 0 (Nat.succ_pos k)] at hfull
          cases hfull
          have first₂ : FailsFirst f₂ k := by
            constructor
            · intro j hj
              have := first.before (j + 1) (by omega)
              rwa [hfate₂, hcalls, show s.flash.calls + 1 + j = s.flash.calls + (j + 1) by omega]
            · have := first.fails
              rwa [hfate₂, hcalls, show s.flash.calls + 1 + k = s.flash.calls + (k + 1) by omega]
          obtain ⟨hle, g₃⟩ := ih g₂ (by
            rw [List.length_append, htake, List.length_drop]
            omega) first₂ h
          have htaken : takenOver b s (k + 1) =
              copyLen + (b.flashPendingMax - 0 + k * b.flashPendingMax) := by
            unfold takenOver
            rw [Nat.succ_mul]
            omega
          change b.flashPendingMax - 0 + k * b.flashPendingMax ≤ _ at hle
          rw [List.length_drop] at hle
          rw [List.append_assoc, takenOver, ← List.take_add] at g₃
          rw [htaken]
          exact ⟨by omega, g₃⟩

/-! ## What is written fits -/

/-- What is written lies inside the partition, or bytes wait whose write is going to test that. -/
structure Inside (b : Board) (a : AreaId) (s : Store) : Prop where
  area : s.ctx.flashArea = some a
  le : s.ctx.flashPending = [] → s.ctx.flashWriteOffset ≤ (b.partition a).size

/-- What a flush that succeeds has written fits in the partition. -/
theorem flush_inside {final : Bool} {a : AreaId} {s s' : Store} (i : Inside b a s)
    (h : imageStoreFlushFlash b final s = (s', .ok)) : Inside b a s' ∧
      (final = true → s.ctx.flashWriteOffset + s.ctx.flashPending.length ≤ (b.partition a).size) := by
  unfold imageStoreFlushFlash at h
  rw [i.area] at h
  dsimp only at h
  split at h
  · cases h
  · split at h
    · rename_i hempty
      have := i.le (List.length_eq_zero_iff.mp hempty)
      cases h
      exact ⟨i, fun _ => by omega⟩
    · split at h
      · rename_i hfew
        cases h
        refine ⟨i, fun hfinal => ?_⟩
        rw [hfew.1] at hfinal
        cases hfinal
      · split at h
        · cases h
        · rename_i hwrite
          have fits := fits_of_flashAreaWrite hwrite
          have hroom := fits.room
          rw [List.length_append, List.length_replicate] at hroom
          cases h
          exact ⟨⟨i.area, fun _ => by dsimp only; omega⟩, fun _ => by omega⟩

/-- More bytes in the buffer leave it so. -/
theorem Inside.buffer {a : AreaId} {s : Store} (i : Inside b a s) (xs : List UInt8) :
    Inside b a (s.buffer xs) :=
  ⟨i.area, fun h => i.le (List.append_eq_nil_iff.mp h).1⟩

/-- So does the loop that succeeds. -/
theorem storeWriteLoop_inside {turns : Nat} {a : AreaId} {data : List UInt8} {s s' : Store}
    (i : Inside b a s) (h : storeWriteLoop b turns data s = (s', .ok)) : Inside b a s' := by
  induction turns generalizing data s with
  | zero =>
    cases h
    exact i
  | succ turns ih =>
    unfold storeWriteLoop at h
    split at h
    · cases h
      exact i
    · dsimp only at h
      split at h
      · cases h
      · rename_i hflush
        exact ih (flush_inside (i.buffer _) hflush).1 h

/-- So does a whole write. -/
theorem imageStoreWrite_inside {offset : Nat} {a : AreaId} {data : List UInt8} {s s' : Store}
    (i : Inside b a s) (h : imageStoreWrite b offset data s = (s', .ok)) : Inside b a s' := by
  unfold imageStoreWrite at h
  split at h
  · cases h
  · split at h
    · cases h
    · split at h
      · cases h
      · split at h
        · cases h
        · rename_i hwrite
          unfold imageStoreWriteFlash at hwrite
          split at hwrite
          · cases hwrite
          · have := storeWriteLoop_inside i hwrite
            cases h
            exact ⟨this.area, this.le⟩

/-- So do any number of them. -/
theorem imageStoreChunks_inside {offset : Nat} {a : AreaId} {chunks : List (List UInt8)}
    {s s' : Store} (i : Inside b a s) (h : imageStoreChunks b offset chunks s = some s') :
    Inside b a s' := by
  induction chunks generalizing offset s with
  | nil =>
    cases h
    exact i
  | cons chunk chunks ih =>
    unfold imageStoreChunks at h
    split at h
    · cases h
    · rename_i hwrite
      exact ih (imageStoreWrite_inside i hwrite) h

/-- A flush that fails leaves the bytes that it was to write in the buffer. -/
theorem flush_err_pending {final : Bool} {s s' : Store} {e : Errno}
    (h : imageStoreFlushFlash b final s = (s', .err e)) : s'.ctx = s.ctx := by
  unfold imageStoreFlushFlash at h
  split at h
  · cases h
    rfl
  · dsimp only at h
    split at h
    · cases h
      rfl
    · split at h
      · cases h
      · split at h
        · cases h
        · split at h
          · cases h
            rfl
          · cases h

/-- The loop fails with bytes in the buffer. -/
theorem storeWriteLoop_err_pending {turns : Nat} {data : List UInt8} {s s' : Store} {e : Errno}
    (room : 0 < b.flashPendingMax) (h : storeWriteLoop b turns data s = (s', .err e)) :
    s'.ctx.flashPending ≠ [] := by
  induction turns generalizing data s with
  | zero => cases h
  | succ turns ih =>
    unfold storeWriteLoop at h
    split at h
    · cases h
    · rename_i hdata
      dsimp only at h
      split at h
      · rename_i hflush
        cases h
        rw [flush_err_pending hflush]
        -- a buffer that is empty takes bytes
        have := List.length_pos_iff.mpr hdata
        intro hnil
        have hlen := congrArg List.length hnil
        rw [List.length_append, List.length_take, List.length_nil] at hlen
        omega
      · exact ih h

/-! ## The retry -/

/-- A write that failed leaves the session open, with what it has taken over; how much that is is
known if the data have room in the partition. -/
theorem writing_of_failed (geometry : b.Geometry) {size k : Nat} {d data : List UInt8}
    {s s₁ : Store} {e : Errno} (w : Writing b size d s) (checked : s.ctx.written + data.length ≤ size)
    (first : FailsFirst s.flash k)
    (failed : imageStoreWrite b s.ctx.written data s = (s₁, .err e)) :
    ∃ taken, Writing b size (d ++ data.take taken) s₁.mend ∧ s₁.ctx.written = s.ctx.written ∧
      Inside b b.directStoreArea s₁.mend ∧
      (d.length + data.length ≤ (b.partition b.directStoreArea).size → taken = takenOver b s k) := by
  have hexpected := w.expected
  unfold imageStoreWrite at failed
  rw [if_neg (by rw [w.active]; simp), if_neg (not_not.mpr rfl), if_neg (by omega)] at failed
  unfold imageStoreWriteFlash at failed
  rw [if_neg (by rw [w.area]; simp)] at failed
  obtain ⟨s', ret, held, hloop, counters, _, gheld, _⟩ := storeWriteLoop_spec (data.length + 2) data
    w.toGathered ⟨by omega, .inr (by omega)⟩
  rw [hloop] at failed
  cases ret with
  | ok => cases failed
  | err e' =>
    cases failed
    have hpending := storeWriteLoop_err_pending geometry.pendingPos hloop
    have hwritten := w.writtenLe
    obtain ⟨taken, g, htaken⟩ : ∃ taken, Gathered b (d ++ data.take taken) s₁ ∧
        (d.length + data.length ≤ (b.partition b.directStoreArea).size →
          taken = takenOver b s k) := by
      by_cases fit : d.length + data.length ≤ (b.partition b.directStoreArea).size
      · exact ⟨_, (storeWriteLoop_err geometry w.toGathered fit first hloop).2, fun _ => rfl⟩
      · exact ⟨held, gheld, fun h => absurd h fit⟩
    refine ⟨taken, ⟨⟨g.area, g.align, g.alignPos, g.alignLe, g.offset, g.pending, ?_⟩,
      counters.active.trans w.active, counters.expected.trans hexpected, ?_, ?_⟩, counters.written,
      ⟨g.area, fun h => absurd h hpending⟩, htaken⟩
    · rw [← g.bytes]
      cases b.directStoreArea <;> rfl
    · show s₁.ctx.written ≤ _
      rw [counters.written, List.length_append]
      omega
    · show s₁.ctx.written ≤ size
      rw [counters.written]
      exact w.room

/-- If the retry recovers, the image is what was gathered. -/
theorem RetryRecovers.gathered {size offset : Nat} {d image data : List UInt8}
    {rest : List (List UInt8)} {s : Store} (w : Writing b size d s)
    (inside : Inside b b.directStoreArea s)
    (hlen : image.length ≤ (d ++ (data ++ rest.flatten)).length)
    (h : RetryRecovers b image offset data rest s) :
    (d ++ (data ++ rest.flatten)).length ≤ (b.partition b.directStoreArea).size ∧
      (d ++ (data ++ rest.flatten)).take image.length = image := by
  obtain ⟨s₁, s₂, s₃, hwrite, hrest, hflush, hslice⟩ := h
  obtain ⟨s₁', ret, d', hwrite', w₁, _, hok, _⟩ :=
    imageStoreWrite_writing offset data w
  rw [hwrite] at hwrite'
  cases hwrite'
  obtain ⟨_, rfl, _⟩ := hok rfl
  have w₂ := imageStoreChunks_writing w₁ hrest
  have inside₂ := imageStoreChunks_inside (imageStoreWrite_inside inside hwrite) hrest
  obtain ⟨_, hroom⟩ := flush_inside inside₂ hflush
  obtain ⟨s₃', ret, hflush', _, _, hbytes, _⟩ := finalFlush_spec w₂.toGathered
  rw [hflush] at hflush'
  cases hflush'
  have hbytes := hbytes rfl
  rw [List.append_assoc] at hbytes
  have hlength := w₂.length
  rw [List.append_assoc] at hlength
  refine ⟨by rw [hlength]; exact hroom rfl, ?_⟩
  calc (d ++ (data ++ rest.flatten)).take image.length
      = ((s₃.flash.area b.directStoreArea).slice 0 (d ++ (data ++ rest.flatten)).length).take
          image.length := by rw [hbytes]
    _ = (s₃.flash.area b.directStoreArea).slice 0 image.length := Memory.take_slice _ _ hlen
    _ = image := hslice

/-- The other way round: the retry succeeds if what is gathered has room. -/
theorem recovers_of_gathered (geometry : b.Geometry) {size : Nat} {d image data : List UInt8}
    {rest : List (List UInt8)} {s : Store} (w : Writing b size d s) (fine : s.flash.Fine)
    (checked : s.ctx.written + (data ++ rest.flatten).length ≤ size)
    (hlen : image.length ≤ (d ++ (data ++ rest.flatten)).length)
    (room : (d ++ (data ++ rest.flatten)).length ≤ (b.partition b.directStoreArea).size)
    (himage : (d ++ (data ++ rest.flatten)).take image.length = image) :
    RetryRecovers b image s.ctx.written data rest s := by
  rw [List.length_append] at checked
  have room' := room
  rw [List.length_append, List.length_append] at room'
  obtain ⟨s₁, ret, d', hwrite, w₁, changes, hok, hfine⟩ :=
    imageStoreWrite_writing s.ctx.written data w
  obtain rfl := hfine fine geometry rfl (by omega) (by omega)
  obtain ⟨_, rfl, hwritten⟩ := hok rfl
  obtain ⟨s₂, hrest, fine₂⟩ := imageStoreChunks_mended rest w₁ (changes.fine fine)
    geometry (by omega) (by rw [List.length_append]; omega)
  have w₂ := imageStoreChunks_writing w₁ hrest
  obtain ⟨s₃, ret, hflush, _, _, hbytes, _, hfine₃⟩ := finalFlush_spec w₂.toGathered
  rw [List.append_assoc] at hbytes hfine₃
  obtain rfl := hfine₃ fine₂ geometry room
  rw [hwritten] at hrest
  refine ⟨s₁, s₂, s₃, hwrite, hrest, hflush, ?_⟩
  rw [← Memory.take_slice _ _ hlen, hbytes rfl, himage]

/-- The same write, repeated once the flash works again, succeeds and the image is complete in the
end, if and only if what was gathered before it, what it had taken over when it failed, and the image
from its offset on have room in the partition and begin with the image. -/
theorem retry_recovers_iff (geometry : b.Geometry) {size k : Nat} {d image data : List UInt8}
    {rest : List (List UInt8)} {s s₁ : Store} {e : Errno} (w : Writing b size d s)
    (hsize : image.length = size) (cut : data ++ rest.flatten = image.drop s.ctx.written)
    (first : FailsFirst s.flash k)
    (failed : imageStoreWrite b s.ctx.written data s = (s₁, .err e)) :
    RetryRecovers b image s.ctx.written data rest s₁.mend ↔
      (d ++ data.take (takenOver b s k) ++ image.drop s.ctx.written).length ≤
          (b.partition b.directStoreArea).size ∧
        (d ++ data.take (takenOver b s k) ++ image.drop s.ctx.written).take image.length = image := by
  have hcut := congrArg List.length cut
  rw [List.length_append, List.length_drop] at hcut
  have hroom := w.room
  have hle := w.writtenLe
  obtain ⟨taken, w₁, hwritten, inside, htaken⟩ :=
    writing_of_failed geometry w (by omega) first failed
  have hlen : image.length ≤ (d ++ data.take taken ++ (data ++ rest.flatten)).length := by
    simp only [List.length_append]
    omega
  rw [← cut]
  by_cases fit : d.length + data.length ≤ (b.partition b.directStoreArea).size
  swap
  · -- data that have no room are not written by the retry either
    refine iff_of_false (fun h => ?_) (fun h => ?_)
    · have := (h.gathered w₁ inside hlen).1
      simp only [List.length_append] at this
      omega
    · have := h.1
      simp only [List.length_append] at this
      omega
  obtain rfl := htaken fit
  constructor
  · exact fun h => h.gathered w₁ inside hlen
  · rintro ⟨room, himage⟩
    have := recovers_of_gathered geometry w₁ (fun _ => rfl) (by
      show s₁.ctx.written + _ ≤ size
      rw [hwritten, List.length_append]
      omega) hlen room himage
    rwa [show s₁.mend.ctx.written = s.ctx.written from hwritten] at this

/-! ## A write that failed, and one whose retry is harmless -/

/-- A board with a buffer of eight bytes. -/
def retryBoard : Board :=
  { slot := ⟨512, 4, by decide⟩, patch := none, flashPendingMax := 8, imageRamMax := 0x400
    crc32IeeeUpdate := fun crc _ => crc }

theorem retryBoard_geometry : retryBoard.Geometry :=
  ⟨by decide, by decide, by decide, by decide, by decide, by decide, by decide⟩

/-- The first flash write fails, behind the three calls of the begin. -/
def retryStore : Store :=
  { ctx := .zero
    flash :=
      { slot := fun _ => 0, patch := fun _ => 0
        fate := fun n => ⟨if n = 3 then .err (.driver 5) else .ok, fun _ => 0⟩, calls := 0
        log := [] } }

/-- A session for an image of 128 bytes. -/
def retrySession : Store := (imageStoreBegin retryBoard 128 retryStore).1

theorem retrySession_writing : Writing retryBoard 128 [] retrySession := by
  obtain ⟨s', ret, hbegin, _, hok, _⟩ :=
    imageStoreBegin_spec (b := retryBoard) 128 (s := retryStore) rfl
  have hret : ret = .ok := by
    have : (imageStoreBegin retryBoard 128 retryStore).2 = ret := by rw [hbegin]
    rw [← this]
    decide
  have hs : retrySession = s' := by
    unfold retrySession
    rw [hbegin]
  rw [hs]
  exact (hok hret).writing

theorem retrySession_fails : FailsFirst retrySession.flash 0 :=
  ⟨fun j hj => absurd hj (Nat.not_lt_zero j), by decide⟩

/-- The write of an image in one call, which fails in the first flash write. -/
theorem retrySession_failed (image : List UInt8) (h : (imageStoreWrite retryBoard 0 image
    retrySession).2 = .err (.driver 5)) : imageStoreWrite retryBoard retrySession.ctx.written image
      retrySession = ((imageStoreWrite retryBoard 0 image retrySession).1, .err (.driver 5)) :=
  Prod.ext rfl h

/-- An image of 128 equal bytes is complete after the retry. -/
theorem equal_bytes_recover : RetryRecovers retryBoard (List.replicate 128 7) 0
    (List.replicate 128 7) []
    (imageStoreWrite retryBoard 0 (List.replicate 128 7) retrySession).1.mend :=
  have cut : List.replicate 128 7 ++ ([] : List (List UInt8)).flatten =
      (List.replicate 128 7).drop retrySession.ctx.written := rfl
  (retry_recovers_iff retryBoard_geometry retrySession_writing (k := 0) rfl cut retrySession_fails
    (retrySession_failed (List.replicate 128 7) (by decide +kernel))).mpr (by decide +kernel)

/-- The bytes from 0 to 127, in order, are not: the first eight are stored twice. -/
theorem retry_stores_twice : ¬ ∀ (b : Board), b.Geometry → ∀ (size k : Nat)
    (d image data : List UInt8) (rest : List (List UInt8)) (s s₁ : Store) (e : Errno),
    Writing b size d s → image.length = size → data ++ rest.flatten = image.drop s.ctx.written →
      d = image.take s.ctx.written →
      d.length + data.length ≤ (b.partition b.directStoreArea).size → FailsFirst s.flash k →
      imageStoreWrite b s.ctx.written data s = (s₁, .err e) →
        RetryRecovers b image s.ctx.written data rest s₁.mend := by
  intro always
  have recovers := always retryBoard retryBoard_geometry 128 0 []
    ((List.range 128).map UInt8.ofNat) ((List.range 128).map UInt8.ofNat) [] retrySession _ _
    retrySession_writing (by decide +kernel) (by decide +kernel) (by decide +kernel)
    (by decide +kernel) retrySession_fails
    (retrySession_failed ((List.range 128).map UInt8.ofNat) (by decide +kernel))
  obtain ⟨taken, w₁, _, inside, htaken⟩ := writing_of_failed retryBoard_geometry
    retrySession_writing (by decide +kernel) retrySession_fails
    (retrySession_failed ((List.range 128).map UInt8.ofNat) (by decide +kernel))
  obtain rfl := htaken (by decide +kernel)
  have := (recovers.gathered w₁ inside (by decide +kernel)).2
  revert this
  decide +kernel

end Rtbus.Image
