import Rtbus.Image.Finish

/-!
# What a finish leaves

`rtbus_image_store_finish` closes a session whatever its outcome, and erases nothing. `Store.settle`
is the flash once it was asked to take what is left in the buffer, and `Passes` the checks of the
finish, said of the bytes that lie in the partition then.

Without a `patch_partition` these are the bytes of the slot, whatever the finish returns
(`imageStoreFinish_direct`). With one, the slot is as before unless the copy into it has begun
(`imageStoreFinish_staged`). `Flash.Answers` counts the calls: which of them have to succeed.
-/

namespace Rtbus.Image

/-! ## Calls of the flash, counted -/

namespace Flash

/-- From one of the calls to come on, a number of them succeed. -/
def Answers (from_ n : Nat) (f : Flash) : Prop :=
  ∀ k, k < n → (f.fate (f.calls + from_ + k)).ret = .ok

/-- A step of some calls. -/
structure Counts (n : Nat) (f f' : Flash) : Prop where
  fate : f'.fate = f.fate
  calls : f'.calls = f.calls + n

variable {f f₁ f₂ : Flash} {n k : Nat}

theorem Counts.refl (f : Flash) : f.Counts 0 f := ⟨rfl, rfl⟩

/-- The calls of two stretches add up. -/
theorem Counts.trans (h₁ : f.Counts n f₁) (h₂ : f₁.Counts k f₂) : f.Counts (n + k) f₂ :=
  ⟨h₂.fate.trans h₁.fate, by rw [h₂.calls, h₁.calls, Nat.add_assoc]⟩

/-- A call that is recorded counts as one. -/
theorem counts_record (x : Access) (f : Flash) : f.Counts 1 (f.record x) := ⟨rfl, rfl⟩

/-- The next call answers with success if at least one does. -/
theorem Answers.next (h : f.Answers 0 (n + 1)) : f.next.ret = .ok := h 0 (Nat.succ_pos n)

/-- Behind a step of some calls the others are the same. -/
theorem Counts.answers_iff (h : f.Counts k f₁) {from_ : Nat} :
    f₁.Answers from_ n ↔ f.Answers (k + from_) n := by
  refine forall_congr' fun i => forall_congr' fun _ => ?_
  rw [h.fate, h.calls, show f.calls + k + from_ + i = f.calls + (k + from_) + i by omega]

/-- The calls behind some of those that succeed. -/
theorem Answers.behind (h : f.Answers 0 (k + n)) (counts : f.Counts k f₁) : f₁.Answers 0 n := by
  refine counts.answers_iff.mpr fun i hi => ?_
  have := h (k + i) (by omega)
  rwa [show f.calls + 0 + (k + i) = f.calls + (k + 0) + i by omega] at this

/-- A step of some calls, all of which succeed. -/
structure Succeeds (n : Nat) (f f' : Flash) : Prop extends f.Counts n f' where
  answers : f.Answers 0 n

theorem Succeeds.refl (f : Flash) : f.Succeeds 0 f := ⟨.refl f, fun _ h => by cases h⟩

/-- One call that has succeeded. -/
theorem succeeds_one (counts : f.Counts 1 f₁) (h : f.next.ret = .ok) : f.Succeeds 1 f₁ := by
  refine ⟨counts, fun k hk => ?_⟩
  obtain rfl : k = 0 := by omega
  exact h

/-- A partition that opens, or a device that is ready, is one call that has succeeded. -/
theorem ask_succeeds (h : f.ask = (f₁, .ok)) : f.Succeeds 1 f₁ := by
  obtain ⟨rfl, hret⟩ := Prod.mk.inj h
  exact succeeds_one ⟨rfl, rfl⟩ hret

/-- Calls that have succeeded and calls that are going to succeed behind them. -/
theorem Succeeds.answers_add (h : f.Succeeds n f₁) (behind : f₁.Answers 0 k) :
    f.Answers 0 (n + k) := by
  intro i hi
  by_cases hn : i < n
  · exact h.answers i hn
  · have := behind (i - n) (by omega)
    rwa [h.fate, h.calls, show f.calls + n + 0 + (i - n) = f.calls + 0 + i by omega] at this

/-- Behind calls that have succeeded, what is still asked of the flash is what was asked of it
without them. -/
theorem Succeeds.answers_iff (h : f.Succeeds n f₁) : f₁.Answers 0 k ↔ f.Answers 0 (n + k) :=
  ⟨h.answers_add, fun answers => answers.behind h.toCounts⟩

/-- Two stretches of calls that have succeeded are one. -/
theorem Succeeds.trans (h₁ : f.Succeeds n f₁) (h₂ : f₁.Succeeds k f₂) : f.Succeeds (n + k) f₂ :=
  ⟨h₁.toCounts.trans h₂.toCounts, h₁.answers_add h₂.answers⟩

end Flash

variable {b : Board}

/-- A read that returns 0 is one call that has succeeded. -/
theorem flashAreaRead_succeeds {a : AreaId} {off len : Nat} {f f' : Flash} {bytes : List UInt8}
    (h : flashAreaRead b a off len f = (f', .ok, bytes)) : f.Succeeds 1 f' := by
  unfold flashAreaRead at h
  dsimp only at h
  split at h
  · cases h
  · split at h
    · rename_i hret
      cases h
      exact Flash.succeeds_one (Flash.counts_record _ f) hret
    · cases h

/-- A write is one call, whatever it returns. -/
theorem flashAreaWrite_counts (b : Board) (a : AreaId) (off : Nat) (bytes : List UInt8)
    (f : Flash) : f.Counts 1 (flashAreaWrite b a off bytes f).1 := by
  unfold flashAreaWrite
  dsimp only
  split
  · exact Flash.counts_record _ f
  · split <;> cases a <;> exact ⟨rfl, rfl⟩

/-- An erase is one call, whatever it returns. -/
theorem flashAreaFlatten_counts (b : Board) (a : AreaId) (f : Flash) :
    f.Counts 1 (flashAreaFlatten b a f).1 := by
  unfold flashAreaFlatten
  dsimp only
  split <;> cases a <;> exact ⟨rfl, rfl⟩

/-- A write that returns 0 is one call that has succeeded. -/
theorem flashAreaWrite_succeeds {a : AreaId} {off : Nat} {bytes : List UInt8} {f f' : Flash}
    (h : flashAreaWrite b a off bytes f = (f', .ok)) : f.Succeeds 1 f' := by
  have counts := flashAreaWrite_counts b a off bytes f
  rw [h] at counts
  have hret := (flashAreaWrite_of_fits (fits_of_flashAreaWrite h) f).2
  rw [h] at hret
  exact Flash.succeeds_one counts hret.symm

/-- An erase that returns 0 is one call that has succeeded. -/
theorem flashAreaFlatten_succeeds {a : AreaId} {f f' : Flash}
    (h : flashAreaFlatten b a f = (f', .ok)) : f.Succeeds 1 f' := by
  have counts := flashAreaFlatten_counts b a f
  rw [h] at counts
  refine Flash.succeeds_one counts ?_
  unfold flashAreaFlatten at h
  dsimp only at h
  split at h
  · rename_i hret
    exact hret
  · cases h

/-- A read inside the partition, at a call that is answered with success, returns its bytes. -/
theorem flashAreaRead_answers {a : AreaId} {off len n : Nat} {f : Flash}
    (answers : f.Answers 0 (n + 1)) (room : off + len ≤ (b.partition a).size) :
    flashAreaRead b a off len f = (f.record (.read a off len), .ok, (f.area a).slice off len) := by
  unfold flashAreaRead
  dsimp only
  rw [if_neg (by omega), answers.next]

/-! ## Accesses to one partition -/

/-- A property of accesses that those to a partition have. -/
structure Covers (P : Access → Prop) (a : AreaId) : Prop where
  read : ∀ off len, P (.read a off len)
  write : ∀ off len, P (.write a off len)
  erase : P (.erase a)

/-- Every access of a step has a property. -/
def Flash.Logs (P : Access → Prop) (f f' : Flash) : Prop :=
  ∃ xs, f'.log = f.log ++ xs ∧ ∀ x ∈ xs, P x

section Logs

variable {P : Access → Prop} {f f₁ f₂ : Flash}

theorem Flash.Logs.refl (f : Flash) : f.Logs P f :=
  ⟨[], (List.append_nil _).symm, fun _ h => by cases h⟩

/-- What two stretches of calls log is what the two together do. -/
theorem Flash.Logs.trans (h₁ : f.Logs P f₁) (h₂ : f₁.Logs P f₂) : f.Logs P f₂ := by
  obtain ⟨xs₁, log₁, all₁⟩ := h₁
  obtain ⟨xs₂, log₂, all₂⟩ := h₂
  refine ⟨xs₁ ++ xs₂, by rw [log₂, log₁, List.append_assoc], fun x hx => ?_⟩
  rcases List.mem_append.mp hx with hx | hx
  · exact all₁ x hx
  · exact all₂ x hx

/-- Behind a step whose accesses have the property it matters what the others are. -/
theorem Flash.Logs.behind_iff (h : f.Logs P f₁) (more : f₁.Logs (fun _ => True) f₂) :
    f.Logs P f₂ ↔ f₁.Logs P f₂ := by
  refine ⟨fun whole => ?_, h.trans⟩
  obtain ⟨xs, hxs, _⟩ := h
  obtain ⟨ys, hys, _⟩ := more
  obtain ⟨zs, hzs, all⟩ := whole
  refine ⟨ys, hys, fun y hy => all y ?_⟩
  rw [hys, hxs, List.append_assoc] at hzs
  rw [← List.append_cancel_left hzs]
  exact List.mem_append_right _ hy

/-- Calls of one kind are calls of any kind. -/
theorem Flash.Logs.any (h : f.Logs P f₁) : f.Logs (fun _ => True) f₁ := by
  obtain ⟨xs, hxs, _⟩ := h
  exact ⟨xs, hxs, fun _ _ => trivial⟩

/-- An access without the property shows. -/
theorem Flash.not_logs {x : Access} (h : f₁.log = f.log ++ [x]) (refuses : ¬ P x)
    (more : f₁.Logs (fun _ => True) f₂) : ¬ f.Logs P f₂ := by
  rintro ⟨zs, hzs, all⟩
  obtain ⟨ys, hys, _⟩ := more
  rw [hys, h, List.append_assoc] at hzs
  refine refuses (all x ?_)
  rw [← List.append_cancel_left hzs]
  exact List.mem_append_left _ (List.mem_singleton.mpr rfl)

/-- One call of the kind. -/
theorem Flash.logs_of_log_eq {x : Access} (h : f₁.log = f.log ++ [x]) (kind : P x) : f.Logs P f₁ :=
  ⟨[x], h, fun y hy => by rw [List.mem_singleton.mp hy]; exact kind⟩

/-- A write logs at most one call, of a kind that covers writes to its partition. -/
theorem flashAreaWrite_logs {a : AreaId} (covers : Covers P a) (off : Nat) (bytes : List UInt8)
    (f : Flash) : f.Logs P (flashAreaWrite b a off bytes f).1 := by
  have kind := covers.write off bytes.length
  unfold flashAreaWrite
  dsimp only
  split
  · exact Flash.logs_of_log_eq rfl kind
  · split <;> cases a <;> exact Flash.logs_of_log_eq rfl kind

theorem flashAreaFlatten_log (b : Board) (a : AreaId) (f : Flash) :
    (flashAreaFlatten b a f).1.log = f.log ++ [.erase a] := by
  unfold flashAreaFlatten
  dsimp only
  split <;> cases a <;> rfl

/-- An erase logs one call, of a kind that covers erases of its partition. -/
theorem flashAreaFlatten_logs {a : AreaId} (covers : Covers P a) (f : Flash) :
    f.Logs P (flashAreaFlatten b a f).1 :=
  Flash.logs_of_log_eq (flashAreaFlatten_log b a f) covers.erase

/-- A begin accesses the partition that is stored into. -/
theorem imageStoreBegin_logs (covers : Covers P b.directStoreArea) (size : Nat) (s : Store) :
    s.flash.Logs P (imageStoreBegin b size s).1.flash := by
  have ask : ∀ f : Flash, f.Logs P f.ask.1 := fun f => (Flash.reads_ask P f).log
  unfold imageStoreBegin
  split
  · exact .refl _
  · split
    · exact .refl _
    · split
      · exact .refl _
      · dsimp only
        have ask₁ := ask s.flash
        cases hask₁ : s.flash.ask with
        | mk f₁ ret₁ =>
          rw [hask₁] at ask₁
          cases ret₁ with
          | err e => exact ask₁
          | ok =>
            have ask₂ := ask₁.trans (ask f₁)
            dsimp only
            cases hask₂ : f₁.ask with
            | mk f₂ ret₂ =>
              rw [hask₂] at ask₂
              cases ret₂ with
              | err e => exact ask₂
              | ok =>
                dsimp only
                split
                · exact ask₂
                · split
                  · exact ask₂
                  · have erase := ask₂.trans (flashAreaFlatten_logs (b := b) covers f₂)
                    cases hflatten : flashAreaFlatten b b.directStoreArea f₂ with
                    | mk f₃ ret₃ =>
                      rw [hflatten] at erase
                      cases ret₃ <;> exact erase

variable {a : AreaId}

/-- A flush writes to the partition of the session only, and leaves it the session's. -/
theorem flush_logs (covers : Covers P a) (final : Bool) {s : Store}
    (harea : s.ctx.flashArea = some a) :
    s.flash.Logs P (imageStoreFlushFlash b final s).1.flash ∧
      (imageStoreFlushFlash b final s).1.ctx.flashArea = some a := by
  unfold imageStoreFlushFlash
  rw [harea]
  dsimp only
  split
  · exact ⟨.refl _, harea⟩
  · split
    · exact ⟨.refl _, harea⟩
    · split
      · exact ⟨.refl _, harea⟩
      · have write := flashAreaWrite_logs (b := b) covers s.ctx.flashWriteOffset
          (s.ctx.flashPending ++ List.replicate ((if final = true then
            roundUp s.ctx.flashPending.length s.ctx.flashAlign else b.flashPendingMax) -
              s.ctx.flashPending.length) 0xff) s.flash
        split
        · rename_i heq
          rw [heq] at write
          exact ⟨write, harea⟩
        · rename_i heq
          rw [heq] at write
          exact ⟨write, harea⟩

/-- So does the loop that gathers and flushes. -/
theorem storeWriteLoop_logs (covers : Covers P a) (turns : Nat) (data : List UInt8) {s : Store}
    (harea : s.ctx.flashArea = some a) :
    s.flash.Logs P (storeWriteLoop b turns data s).1.flash := by
  induction turns generalizing data s with
  | zero => exact .refl _
  | succ turns ih =>
    unfold storeWriteLoop
    split
    · exact .refl _
    · dsimp only
      obtain ⟨flush, harea₁⟩ := flush_logs (b := b) covers false (s := s.buffer
        (data.take (min data.length (b.flashPendingMax - s.ctx.flashPending.length)))) harea
      unfold Store.buffer at flush harea₁
      split
      · rename_i heq
        rw [heq] at flush
        exact flush
      · rename_i heq
        rw [heq] at flush harea₁
        exact flush.trans (ih _ harea₁)

/-- A write accesses the partition of the session. -/
theorem imageStoreWrite_logs (covers : Covers P a) (offset : Nat) (data : List UInt8) {s : Store}
    (harea : s.ctx.flashArea = some a) :
    s.flash.Logs P (imageStoreWrite b offset data s).1.flash := by
  unfold imageStoreWrite
  split
  · exact .refl _
  · split
    · exact .refl _
    · split
      · exact .refl _
      · have write : s.flash.Logs P (imageStoreWriteFlash b offset data s).1.flash := by
          unfold imageStoreWriteFlash
          split
          · exact .refl _
          · exact storeWriteLoop_logs covers _ _ harea
        split
        · rename_i heq
          rw [heq] at write
          exact write
        · rename_i heq
          rw [heq] at write
          exact write

end Logs

/-! ## An open session -/

/-- A session that was opened, whatever its writes have returned. -/
structure Opened (b : Board) (s : Store) : Prop where
  gathered : ∃ d, Gathered b d s
  aligned : 0 < s.ctx.written → s.ctx.flashAlign ∣ b.flashPendingMax
  header : imageHeaderSize ≤ s.ctx.expectedSize
  slot : s.ctx.expectedSize ≤ b.slot.size
  partition : s.ctx.expectedSize ≤ (b.partition b.directStoreArea).size

/-- A begin that leaves a session open has passed its checks. -/
theorem imageStoreBegin_opened (size : Nat) {s : Store} (inactive : s.ctx.active = false)
    (active : (imageStoreBegin b size s).1.ctx.active = true) :
    Opened b (imageStoreBegin b size s).1 := by
  obtain ⟨s', ret, hbegin, _, hok, hfail, _⟩ := imageStoreBegin_spec (b := b) size inactive
  rw [hbegin] at active ⊢
  by_cases hret : ret = .ok
  · have session := hok hret
    have hwritten := session.written
    have hexpected := session.expected
    exact
      { gathered := ⟨_, session.toGathered⟩
        aligned := fun h => by
          rw [hwritten] at h
          cases h
        header := by rw [hexpected]; exact session.header
        slot := by rw [hexpected]; exact session.slot
        partition := by rw [hexpected]; exact session.partition }
  · rw [hfail hret] at active
    cases active

/-- A flush succeeds only if the write block divides the buffer. -/
theorem flush_aligned {final : Bool} {s s' : Store}
    (h : imageStoreFlushFlash b final s = (s', .ok)) : s.ctx.flashAlign ∣ b.flashPendingMax := by
  unfold imageStoreFlushFlash at h
  split at h
  · cases h
  · split at h
    · cases h
    · rename_i hbad
      obtain ⟨_, hbad⟩ := not_or.mp hbad
      obtain ⟨_, hmod⟩ := not_or.mp hbad
      exact Nat.dvd_of_mod_eq_zero (not_not.mp hmod)

/-- A loop over at least one byte succeeds only with a write block that divides the buffer. -/
theorem storeWriteLoop_aligned {turns : Nat} {data : List UInt8} {s s' : Store} (some : data ≠ [])
    (h : storeWriteLoop b (turns + 1) data s = (s', .ok)) :
    s.ctx.flashAlign ∣ b.flashPendingMax := by
  unfold storeWriteLoop at h
  rw [if_neg some] at h
  dsimp only at h
  split at h
  · cases h
  · rename_i hflush
    exact flush_aligned (s := s.buffer _) hflush

/-- A write leaves an open session open, failed or not. -/
theorem imageStoreWrite_opened (offset : Nat) (data : List UInt8) {s : Store} (h : Opened b s) :
    Opened b (imageStoreWrite b offset data s).1 := by
  obtain ⟨d, g⟩ := h.gathered
  obtain ⟨s₁, ret, taken, hloop, counters, _, g₁, _⟩ :=
    storeWriteLoop_spec (data.length + 2) data g ⟨by omega, .inr (by omega)⟩
  have opened₁ : Opened b s₁ :=
    { gathered := ⟨_, g₁⟩
      aligned := by rw [counters.written, counters.align]; exact h.aligned
      header := by rw [counters.expected]; exact h.header
      slot := by rw [counters.expected]; exact h.slot
      partition := by rw [counters.expected]; exact h.partition }
  unfold imageStoreWrite
  split
  · exact h
  · split
    · exact h
    · rename_i hoffset
      split
      · exact h
      · unfold imageStoreWriteFlash
        rw [if_neg (by rw [g.area]; simp [not_not.mp hoffset]), hloop]
        cases ret with
        | err e => exact opened₁
        | ok =>
          refine { opened₁ with gathered := ⟨_, { g₁ with }⟩, aligned := fun hwritten => ?_ }
          by_cases hdata : data = []
          · rw [hdata] at hwritten
            exact opened₁.aligned hwritten
          · exact counters.align ▸ storeWriteLoop_aligned hdata hloop

/-! ## The last write -/

/-- What is in the buffer, with its padding. -/
def Store.padded (s : Store) : List UInt8 :=
  s.ctx.flashPending ++ List.replicate
    (roundUp s.ctx.flashPending.length s.ctx.flashAlign - s.ctx.flashPending.length) 0xff

/-- The flash that was asked to take what is in the buffer, with its answer. -/
def Store.settle (b : Board) (s : Store) : Flash × Ret :=
  if s.ctx.flashPending = [] then (s.flash, .ok)
  else flashAreaWrite b b.directStoreArea s.ctx.flashWriteOffset s.padded s.flash

/-- The checks of `rtbus_image_store_finish` on what lies in a partition, for an image of a size. -/
def Passes (b : Board) (size : Nat) (m : Memory) : Prop :=
  (headerOf m).Valid (size - imageHeaderSize) ∧
    (headerOf m).requiredRamSize.toNat ≤ b.imageRamMax ∧
    blockwiseCrc b m (headerOf m).payloadSize.toNat = (headerOf m).payloadCrc32

instance (b : Board) (size : Nat) (m : Memory) : Decidable (Passes b size m) := by
  unfold Passes
  infer_instance

/-- How many reads the payload takes. -/
def payloadReads (m : Memory) : Nat := (blocks (headerOf m).payloadSize.toNat).length

/-- The final flush of a session that has been given bytes does what `settle` says, and nothing to
the counters. -/
theorem finalFlush_settle {s : Store} (opened : Opened b s) (some : 0 < s.ctx.written) :
    ∃ s', imageStoreFlushFlash b true s = (s', (s.settle b).2) ∧ s'.flash = (s.settle b).1 ∧
      SameCounters s s' := by
  obtain ⟨d, g⟩ := opened.gathered
  have hdvd := opened.aligned some
  have hpos := g.alignPos
  have hle := g.alignLe
  unfold Store.settle Store.padded
  by_cases hempty : s.ctx.flashPending = []
  · rw [if_pos hempty]
    refine ⟨s, ?_, rfl, .refl s⟩
    unfold imageStoreFlushFlash
    rw [g.area]
    dsimp only
    rw [if_neg (by
      rintro (h | h | h)
      · omega
      · omega
      · exact h (Nat.mod_eq_zero_of_dvd hdvd)), if_pos (by rw [hempty]; rfl)]
  · rw [if_neg hempty, flush_eq g.area ⟨hpos, hle⟩ hdvd
      (fun h => hempty (List.length_eq_zero_iff.mp h)) (.inl rfl)]
    simp only [if_true]
    cases flashAreaWrite b b.directStoreArea s.ctx.flashWriteOffset (s.ctx.flashPending ++
      List.replicate (roundUp s.ctx.flashPending.length s.ctx.flashAlign -
        s.ctx.flashPending.length) 0xff) s.flash with
    | mk f ret => cases ret <;> exact ⟨_, rfl, rfl, ⟨rfl, rfl, rfl, rfl, rfl⟩⟩

/-! ## Reading back, with the calls counted -/

/-- A read of the store that returns 0 is one call of the flash that has succeeded. -/
theorem imageStoreRead_succeeds {s s' : Store} {offset size : Nat} {bytes : List UInt8}
    (h : imageStoreRead b offset size s = (s', .ok, bytes)) : s.flash.Succeeds 1 s'.flash := by
  unfold imageStoreRead at h
  split at h
  · cases h
  · split at h
    · cases h
    · rename_i area _
      split at h
      · cases h
      · cases hread : flashAreaRead b area offset size s.flash with
        | mk f r =>
          obtain ⟨ret, read⟩ := r
          rw [hread] at h
          cases h
          exact flashAreaRead_succeeds hread

/-- So is a header that was read. -/
theorem imageReadHeaderFromStore_succeeds {s s' : Store} {header : Header}
    (h : imageReadHeaderFromStore b s = (s', .ok header)) : s.flash.Succeeds 1 s'.flash := by
  unfold imageReadHeaderFromStore at h
  split at h
  · cases h
  · rename_i hread
    dsimp only at h
    split at h
    · cases h
      exact imageStoreRead_succeeds hread
    · cases h

/-- A CRC that was computed has taken one read a turn. -/
theorem storePayloadCrcLoop_succeeds {turns : List (Nat × Nat)} {crc c : UInt32} {s s' : Store}
    (h : storePayloadCrcLoop b turns crc s = (s', .ok c)) :
    s.flash.Succeeds turns.length s'.flash := by
  induction turns generalizing crc s with
  | nil =>
    cases h
    exact .refl _
  | cons turn turns ih =>
    unfold storePayloadCrcLoop at h
    split at h
    · cases h
    · rename_i hread
      have := (imageStoreRead_succeeds hread).trans (ih h)
      rwa [Nat.add_comm] at this

/-- A read of what was written succeeds if its call does. -/
theorem imageStoreRead_answers {s : Store} {a : AreaId} {n : Nat} (harea : s.ctx.flashArea = some a)
    {offset size : Nat} (answers : s.flash.Answers 0 (n + 1))
    (written : offset + size ≤ s.ctx.written) (room : offset + size ≤ (b.partition a).size) :
    imageStoreRead b offset size s =
      (s.read (s.flash.record (.read a offset size)), .ok, (s.flash.area a).slice offset size) := by
  unfold imageStoreRead
  rw [if_neg (by omega), harea]
  dsimp only
  rw [if_neg (by omega), flashAreaRead_answers answers room]
  rfl

/-- The other way round: as many reads that succeed are enough for the CRC. -/
theorem storePayloadCrcLoop_answers {s : Store} {a : AreaId} (harea : s.ctx.flashArea = some a)
    {turns : List (Nat × Nat)} (crc : UInt32) (answers : s.flash.Answers 0 turns.length)
    (inside : ∀ turn ∈ turns, imageHeaderSize + turn.1 + turn.2 ≤ s.ctx.written)
    (room : s.ctx.written ≤ (b.partition a).size) :
    ∃ c, (storePayloadCrcLoop b turns crc s).2 = .ok c := by
  induction turns generalizing crc s with
  | nil => exact ⟨crc, rfl⟩
  | cons turn turns ih =>
    have hturn := inside turn (List.mem_cons_self ..)
    unfold storePayloadCrcLoop
    rw [imageStoreRead_answers harea answers hturn (by omega)]
    rw [List.length_cons, Nat.add_comm] at answers
    exact ih (s := s.read (s.flash.record (.read a (imageHeaderSize + turn.1) turn.2))) harea _
      (answers.behind (Flash.counts_record _ _))
      (fun t ht => inside t (List.mem_cons_of_mem _ ht)) room

/-- A valid header is read if its call succeeds. -/
theorem imageReadHeaderFromStore_answers {s : Store} {a : AreaId} {n : Nat}
    (harea : s.ctx.flashArea = some a) (answers : s.flash.Answers 0 (n + 1))
    (written : imageHeaderSize ≤ s.ctx.written) (room : imageHeaderSize ≤ (b.partition a).size)
    (valid : (headerOf (s.flash.area a)).Valid (s.ctx.expectedSize - imageHeaderSize)) :
    (imageReadHeaderFromStore b s).2 = .ok (headerOf (s.flash.area a)) := by
  unfold imageReadHeaderFromStore
  rw [imageStoreRead_answers harea answers (by omega) (by omega)]
  dsimp only
  split
  · rfl
  · rename_i invalid
    exact absurd valid invalid

/-! ## Without a partition to stage into -/

section Direct

variable {s : Store} (direct : b.directStoreArea = .slot) (opened : Opened b s)
  (complete : s.ctx.written = s.ctx.expectedSize)
include direct complete

/-- The checks read only. An image with a valid header is accepted if it passes them and the calls
succeed. -/
theorem imageCheckStore_direct (harea : s.ctx.flashArea = some b.directStoreArea)
    (valid : (headerOf s.flash.slot).Valid (s.ctx.expectedSize - imageHeaderSize))
    (header : imageHeaderSize ≤ s.ctx.expectedSize)
    (partition : s.ctx.expectedSize ≤ (b.partition b.directStoreArea).size) :
    ∃ f' ret, imageCheckStore b (headerOf s.flash.slot) s = (s.read f', ret) ∧
      f'.slot = s.flash.slot ∧
      (ret = .ok ↔ Passes b s.ctx.expectedSize s.flash.slot ∧
        s.flash.Answers 0 (payloadReads s.flash.slot)) := by
  obtain ⟨_, _, _, _, hle⟩ := id valid
  rw [direct] at harea partition
  unfold imageCheckStore
  rw [if_neg (by omega)]
  by_cases hram : (headerOf s.flash.slot).requiredRamSize.toNat > b.imageRamMax
  · rw [if_pos hram]
    refine ⟨s.flash, _, rfl, rfl, fun h => (by cases h), fun h => ?_⟩
    have := h.1.2.1
    omega
  · rw [if_neg hram]
    obtain ⟨f₁, r, hloop, reads, hcrc, _⟩ := storePayloadCrcLoop_spec (b := b)
      (P := fun _ => True) harea (fun _ _ => trivial)
      (blocks (headerOf s.flash.slot).payloadSize.toNat) 0
    have hcalculate : imageCalculateStorePayloadCrc b (headerOf s.flash.slot).payloadSize s =
      (s.read f₁, r) := hloop
    rw [hcalculate]
    cases r with
    | error e =>
      refine ⟨f₁, _, rfl, reads.slot, fun h => (by cases h), fun h => ?_⟩
      obtain ⟨c, hc⟩ := storePayloadCrcLoop_answers (b := b) harea 0 h.2 (fun turn ht => by
        have := mem_blocks ht
        omega) (by omega)
      rw [hloop] at hc
      cases hc
    | ok crc =>
      have hcrc : crc = blockwiseCrc b s.flash.slot
        (headerOf s.flash.slot).payloadSize.toNat := hcrc crc rfl
      dsimp only
      by_cases hmatch : crc = (headerOf s.flash.slot).payloadCrc32
      · rw [if_neg (not_not.mpr hmatch)]
        refine ⟨f₁, .ok, ?_, reads.slot, fun _ => ⟨⟨valid, by omega, hcrc.symm.trans hmatch⟩,
          (storePayloadCrcLoop_succeeds hloop).answers⟩, fun _ => rfl⟩
        unfold imageCommitStoreToSlot
        rw [show (s.read f₁).ctx.flashArea = some .slot from harea]
        dsimp only
        rw [if_neg (show ¬ (s.read f₁).ctx.written ≠ (s.read f₁).ctx.expectedSize from
          not_not.mpr complete), if_pos rfl]
      · rw [if_pos hmatch]
        exact ⟨f₁, _, rfl, reads.slot, fun h => (by cases h),
          fun h => absurd (hcrc.trans h.1.2.2) hmatch⟩

include opened

/-- The slot is left as the last write has left it. The finish succeeds if that has taken the bytes,
they pass the checks and the calls succeed. -/
theorem imageStoreComplete_direct :
    ∃ s' ret, imageStoreComplete b s = (s', ret) ∧ s'.flash.slot = (s.settle b).1.slot ∧
      (ret = .ok ↔ (s.settle b).2 = .ok ∧ Passes b s.ctx.expectedSize (s.settle b).1.slot ∧
        (s.settle b).1.Answers 0 (payloadReads (s.settle b).1.slot + 1)) := by
  have header := opened.header
  have partition := opened.partition
  obtain ⟨s₁, hflush, hflash, counters⟩ := finalFlush_settle opened (by
    rw [complete]
    exact Nat.lt_of_lt_of_le (by decide) header)
  obtain ⟨d, g⟩ := opened.gathered
  have harea : s₁.ctx.flashArea = some b.directStoreArea := counters.area.trans g.area
  have complete₁ : s₁.ctx.written = s₁.ctx.expectedSize := by
    rw [counters.written, counters.expected, complete]
  unfold imageStoreComplete
  rw [hflush, ← hflash, ← counters.expected]
  rw [← counters.expected] at header partition
  cases hret : (s.settle b).2 with
  | err e => exact ⟨s₁, _, rfl, rfl, fun h => (by cases h), fun h => by cases h.1⟩
  | ok =>
    have hslot : s₁.flash.area b.directStoreArea = s₁.flash.slot := by rw [direct]; rfl
    obtain ⟨f₂, r, hheader, reads, hok, _⟩ :=
      imageReadHeaderFromStore_spec (b := b) (P := fun _ => True) harea trivial
    dsimp only
    rw [hheader]
    cases r with
    | error e =>
      refine ⟨_, _, rfl, reads.slot, fun h => (by cases h), fun h => ?_⟩
      obtain ⟨_, passes, answers⟩ := h
      have hread := imageReadHeaderFromStore_answers (b := b) harea answers (by omega) (by omega)
        (by rw [hslot]; exact passes.1)
      rw [hheader] at hread
      cases hread
    | ok header' =>
      obtain ⟨rfl, valid⟩ := hok header' rfl
      have succeeds := imageReadHeaderFromStore_succeeds hheader
      rw [hslot, ← reads.slot] at valid ⊢
      obtain ⟨f₃, ret, hcheck, hslot₃, hiff⟩ := imageCheckStore_direct (s := s₁.read f₂) direct
        complete₁ harea valid header partition
      refine ⟨_, ret, hcheck, hslot₃, ?_⟩
      rw [hiff, Nat.add_comm, ← succeeds.answers_iff]
      exact ⟨fun h => ⟨rfl, h⟩, fun h => h.2⟩

end Direct

/-! ## With one -/

/-- The copy of an image into the slot is not cut short: the slot takes its writes, and the calls
from one of those to come on succeed. -/
structure Copies (b : Board) (size from_ : Nat) (f : Flash) : Prop where
  fits : ∀ turn ∈ blocks size, Fits b.slot turn.1 (roundUp turn.2 b.slot.align)
  answers : f.Answers from_ (2 * (blocks size).length + 1)

/-- Behind a step of some calls it is the same copy. -/
theorem Flash.Counts.copies_iff {f f₁ : Flash} {k size from_ : Nat} (h : f.Counts k f₁) :
    Copies b size from_ f₁ ↔ Copies b size (k + from_) f :=
  ⟨fun c => ⟨c.fits, h.answers_iff.mp c.answers⟩, fun c => ⟨c.fits, h.answers_iff.mpr c.answers⟩⟩

/-- The loop of the commit only adds to the log. -/
theorem commitLoop_logs (turns : List (Nat × Nat)) (f : Flash) :
    f.Logs (fun _ => True) (commitLoop b .patch turns f).1 := by
  induction turns generalizing f with
  | nil => exact .refl f
  | cons turn turns ih =>
    have covers : Covers (fun _ => True) .slot :=
      ⟨fun _ _ => trivial, fun _ _ => trivial, trivial⟩
    unfold commitLoop
    obtain ⟨f₁, ret, buf, hread, reads, _⟩ :=
      flashAreaRead_spec b .patch turn.1 turn.2 f (P := fun _ => True) trivial
    rw [hread]
    cases ret with
    | err e => exact reads.log
    | ok =>
      have write := flashAreaWrite_logs (b := b) covers turn.1
        (buf ++ List.replicate (roundUp turn.2 b.slot.align - turn.2) 0xff) f₁
      dsimp only
      cases hwrite : flashAreaWrite b .slot turn.1
          (buf ++ List.replicate (roundUp turn.2 b.slot.align - turn.2) 0xff) f₁ with
      | mk f₂ ret =>
        rw [hwrite] at write
        have both := Flash.Logs.trans reads.log write
        cases ret with
        | err e => exact both
        | ok => exact both.trans (ih f₂)

/-- The length of a block with its padding. -/
theorem padded_length {buf : List UInt8} {len align : Nat} (pos : 0 < align)
    (hlen : buf.length = len) :
    (buf ++ List.replicate (roundUp len align - len) (0xff : UInt8)).length =
      roundUp len align := by
  have := le_roundUp (x := len) pos
  rw [List.length_append, hlen, List.length_replicate]
  omega

/-- The loop succeeds if the writes fit and the calls succeed, and then only. -/
theorem commitLoop_iff {turns : List (Nat × Nat)} {f : Flash} (pos : 0 < b.slot.align)
    (inside : ∀ turn ∈ turns, turn.1 + turn.2 ≤ (b.partition .patch).size) :
    (commitLoop b .patch turns f).2 = .ok ↔
      (∀ turn ∈ turns, Fits b.slot turn.1 (roundUp turn.2 b.slot.align)) ∧
        f.Answers 0 (2 * turns.length) := by
  induction turns generalizing f with
  | nil => exact iff_of_true rfl ⟨fun _ h => (by cases h), fun _ h => by cases h⟩
  | cons turn turns ih =>
    have hroom := inside turn (List.mem_cons_self ..)
    have hmore := fun f => ih (f := f) fun t ht => inside t (List.mem_cons_of_mem _ ht)
    have hcount : 2 * (turn :: turns).length = 1 + (1 + 2 * turns.length) := by
      rw [List.length_cons]
      omega
    rw [hcount, List.forall_mem_cons]
    unfold commitLoop
    cases hread : flashAreaRead b .patch turn.1 turn.2 f with
    | mk f₁ r =>
      obtain ⟨ret, buf⟩ := r
      cases ret with
      | err e =>
        refine iff_of_false (fun h => by cases h) fun h => ?_
        rw [flashAreaRead_answers (Nat.add_comm .. ▸ h.2) hroom] at hread
        cases hread
      | ok =>
        have read := flashAreaRead_succeeds hread
        have hlen : buf.length = turn.2 := by
          obtain ⟨_, _, _, hspec, _, _, hok, _⟩ :=
            flashAreaRead_spec b .patch turn.1 turn.2 f (P := fun _ => True) trivial
          rw [hread] at hspec
          cases hspec
          rw [(hok rfl).2, Memory.slice_length]
        have hpadded := padded_length pos hlen
        rw [← read.answers_iff]
        dsimp only
        cases hwrite : flashAreaWrite b .slot turn.1
            (buf ++ List.replicate (roundUp turn.2 b.slot.align - turn.2) 0xff) f₁ with
        | mk f₂ ret =>
          cases ret with
          | err e =>
            refine iff_of_false (fun h => by cases h) fun h => ?_
            obtain ⟨⟨fits, _⟩, answers⟩ := h
            have hret := (flashAreaWrite_of_fits (b := b) (a := .slot) (hpadded.symm ▸ fits) f₁).2
            rw [hwrite, Flash.Answers.next (Nat.add_comm .. ▸ answers)] at hret
            cases hret
          | ok =>
            have fits := fits_of_flashAreaWrite hwrite
            rw [hpadded] at fits
            rw [← (flashAreaWrite_succeeds hwrite).answers_iff]
            refine (hmore f₂).trans ⟨fun h => ⟨⟨fits, h.1⟩, h.2⟩, fun h => ⟨h.1.2, h.2⟩⟩

section Staged

variable {P : Access → Prop} {s : Store} (covers : Covers P .patch) (refuses : ¬ P (.erase .slot))
  (complete : s.ctx.written = s.ctx.expectedSize) (slot : s.ctx.expectedSize ≤ b.slot.size)
  (partition : s.ctx.expectedSize ≤ (b.partition .patch).size)
include refuses complete slot partition

/-- The copy succeeds or does not touch the slot, unless it is cut short. -/
theorem imageCommitStoreToSlot_staged (harea : s.ctx.flashArea = some .patch) :
    ∃ f' ret, imageCommitStoreToSlot b s = (s.read f', ret) ∧ s.flash.Logs (fun _ => True) f' ∧
      ((ret = .ok ∨ s.flash.Logs P f') ↔ (s.flash.Answers 0 1 → 0 < b.slot.align →
        b.slot.align ≤ 128 → Copies b s.ctx.expectedSize 1 s.flash)) := by
  have ask : s.flash.Logs P s.flash.ask.1 := (Flash.reads_ask P s.flash).log
  unfold imageCommitStoreToSlot
  rw [harea]
  dsimp only
  rw [if_neg (not_not.mpr complete), if_neg (by decide)]
  cases hask : s.flash.ask with
  | mk f₁ ret =>
    rw [hask] at ask
    cases ret with
    | err e =>
      refine ⟨f₁, _, rfl, ask.any, iff_of_true (.inr ask) fun answers => ?_⟩
      have hret : s.flash.next.ret = .err e := congrArg Prod.snd hask
      rw [answers.next] at hret
      cases hret
    | ok =>
      have opens := Flash.ask_succeeds hask
      dsimp only
      have hcopies : Copies b s.ctx.expectedSize 0 f₁ ↔ Copies b s.ctx.expectedSize 1 s.flash :=
        opens.toCounts.copies_iff
      rw [if_neg (Nat.not_lt.mpr slot), ← hcopies]
      by_cases halign : b.slot.align = 0 ∨ b.slot.align > 128
      · rw [if_pos halign]
        exact ⟨f₁, _, rfl, ask.any, iff_of_true (.inr ask) fun _ _ _ => by omega⟩
      · rw [if_neg halign]
        have hlog := flashAreaFlatten_log b .slot f₁
        have hneeded : (s.flash.Answers 0 1 → 0 < b.slot.align → b.slot.align ≤ 128 →
            Copies b s.ctx.expectedSize 0 f₁) ↔ Copies b s.ctx.expectedSize 0 f₁ :=
          ⟨fun h => h opens.answers (by omega) (by omega), fun h _ _ _ => h⟩
        rw [hneeded]
        cases hflatten : flashAreaFlatten b .slot f₁ with
        | mk f₂ ret =>
          rw [hflatten] at hlog
          have erased : ∀ {f₃ : Flash}, f₂.Logs (fun _ => True) f₃ → ¬ s.flash.Logs P f₃ :=
            fun more logs => Flash.not_logs hlog refuses more
              ((ask.behind_iff ((Flash.logs_of_log_eq hlog trivial).trans more)).mp logs)
          cases ret with
          | err e =>
            refine ⟨f₂, _, rfl, ask.any.trans (Flash.logs_of_log_eq hlog trivial),
              iff_of_false ?_ fun copies => ?_⟩
            · rintro (h | h)
              · cases h
              · exact erased (.refl _) h
            · have hret : (flashAreaFlatten b .slot f₁).2 = .ok := by
                unfold flashAreaFlatten
                dsimp only
                rw [copies.answers.next]
              rw [hflatten] at hret
              cases hret
          | ok =>
            have erase := flashAreaFlatten_succeeds hflatten
            have more := commitLoop_logs (b := b) (blocks s.ctx.expectedSize) f₂
            have inside : ∀ turn ∈ blocks s.ctx.expectedSize,
                turn.1 + turn.2 ≤ (b.partition .patch).size :=
              fun turn ht => Nat.le_trans (mem_blocks ht).1 partition
            have hloop := commitLoop_iff (b := b) (f := f₂) (by omega) inside
            refine ⟨(commitLoop b .patch (blocks s.ctx.expectedSize) f₂).1,
              (commitLoop b .patch (blocks s.ctx.expectedSize) f₂).2, rfl,
              ask.any.trans ((Flash.logs_of_log_eq hlog trivial).trans more), ?_⟩
            rw [or_iff_left (erased more), hloop, erase.answers_iff, Nat.add_comm 1]
            exact ⟨fun h => ⟨h.1, h.2⟩, fun h => ⟨h.fits, h.answers⟩⟩

/-- The checks read the partition of the session only, up to the copy. -/
theorem imageCheckStore_staged (covers : Covers P .patch) (harea : s.ctx.flashArea = some .patch)
    (header : imageHeaderSize ≤ s.ctx.expectedSize)
    (valid : (headerOf s.flash.patch).Valid (s.ctx.expectedSize - imageHeaderSize)) :
    ∃ f' ret, imageCheckStore b (headerOf s.flash.patch) s = (s.read f', ret) ∧
      s.flash.Logs (fun _ => True) f' ∧
      ((ret = .ok ∨ s.flash.Logs P f') ↔ (Passes b s.ctx.expectedSize s.flash.patch →
        s.flash.Answers 0 (payloadReads s.flash.patch + 1) → 0 < b.slot.align →
          b.slot.align ≤ 128 →
            Copies b s.ctx.expectedSize (payloadReads s.flash.patch + 1) s.flash)) := by
  obtain ⟨_, _, _, _, hle⟩ := id valid
  unfold imageCheckStore
  rw [if_neg (by omega)]
  by_cases hram : (headerOf s.flash.patch).requiredRamSize.toNat > b.imageRamMax
  · rw [if_pos hram]
    refine ⟨s.flash, _, rfl, .refl _, iff_of_true (.inr (.refl _)) fun passes => ?_⟩
    have := passes.2.1
    omega
  · rw [if_neg hram]
    obtain ⟨f₁, r, hloop, reads, hcrc, _⟩ := storePayloadCrcLoop_spec (b := b) harea covers.read
      (blocks (headerOf s.flash.patch).payloadSize.toNat) 0
    have hcalculate : imageCalculateStorePayloadCrc b (headerOf s.flash.patch).payloadSize s =
      (s.read f₁, r) := hloop
    have logs : s.flash.Logs P f₁ := reads.log
    rw [hcalculate]
    cases r with
    | error e =>
      refine ⟨f₁, _, rfl, logs.any, iff_of_true (.inr logs) fun _ answers => ?_⟩
      obtain ⟨c, hc⟩ := storePayloadCrcLoop_answers (b := b) harea 0
        (fun k hk => answers k (Nat.lt_succ_of_lt hk)) (fun turn ht => by
          have := mem_blocks ht
          omega) (by omega)
      rw [hloop] at hc
      cases hc
    | ok crc =>
      have hcrc : crc = blockwiseCrc b s.flash.patch
        (headerOf s.flash.patch).payloadSize.toNat := hcrc crc rfl
      dsimp only
      by_cases hmatch : crc = (headerOf s.flash.patch).payloadCrc32
      · have passes : Passes b s.ctx.expectedSize s.flash.patch :=
          ⟨valid, by omega, hcrc.symm.trans hmatch⟩
        have succeeds := storePayloadCrcLoop_succeeds hloop
        rw [if_neg (not_not.mpr hmatch)]
        obtain ⟨f₂, ret, hcommit, more, hcases⟩ := imageCommitStoreToSlot_staged (s := s.read f₁)
          refuses complete slot partition harea
        refine ⟨f₂, ret, hcommit, logs.any.trans more, ?_⟩
        rw [logs.behind_iff more]
        refine hcases.trans ?_
        rw [succeeds.answers_iff, succeeds.toCounts.copies_iff]
        exact ⟨fun h _ => h, fun h => h passes⟩
      · rw [if_pos hmatch]
        exact ⟨f₁, _, rfl, logs.any, iff_of_true (.inr logs)
          fun passes => absurd (hcrc.trans passes.2.2) hmatch⟩

omit slot partition

/-- The finish succeeds or accesses the partition of the session only, unless the copy of an image
that passes the checks is cut short. -/
theorem imageStoreComplete_staged (covers : Covers P .patch) (staged : b.directStoreArea = .patch)
    (opened : Opened b s) :
    ∃ s' ret, imageStoreComplete b s = (s', ret) ∧
      ((ret = .ok ∨ s.flash.Logs P s'.flash) ↔ ((s.settle b).2 = .ok →
        Passes b s.ctx.expectedSize (s.settle b).1.patch →
          (s.settle b).1.Answers 0 (payloadReads (s.settle b).1.patch + 2) →
            0 < b.slot.align → b.slot.align ≤ 128 → Copies b s.ctx.expectedSize
              (payloadReads (s.settle b).1.patch + 2) (s.settle b).1)) := by
  have header := opened.header
  have slot := opened.slot
  have partition := opened.partition
  obtain ⟨d, g⟩ := opened.gathered
  have area := g.area
  rw [staged] at area partition
  obtain ⟨s₁, hflush, hflash, counters⟩ := finalFlush_settle opened (by
    rw [complete]
    exact Nat.lt_of_lt_of_le (by decide) header)
  have write := (flush_logs (b := b) covers true area).1
  rw [hflush] at write
  have harea : s₁.ctx.flashArea = some .patch := counters.area.trans area
  have complete₁ : s₁.ctx.written = s₁.ctx.expectedSize := by
    rw [counters.written, counters.expected, complete]
  rw [← hflash, ← counters.expected]
  rw [← counters.expected] at header slot partition
  unfold imageStoreComplete
  rw [hflush]
  cases hret : (s.settle b).2 with
  | err e => exact ⟨s₁, _, rfl, iff_of_true (.inr write) fun h => by cases h⟩
  | ok =>
    obtain ⟨f₂, r, hheader, reads, hok, _⟩ :=
      imageReadHeaderFromStore_spec (b := b) harea (covers.read _ _)
    have logs : s₁.flash.Logs P f₂ := reads.log
    dsimp only
    rw [hheader]
    cases r with
    | error e =>
      refine ⟨_, _, rfl, iff_of_true (.inr (write.trans logs)) fun _ passes answers => ?_⟩
      have hread := imageReadHeaderFromStore_answers (b := b) harea
        (fun k hk => answers k (Nat.lt_of_lt_of_le hk (Nat.le_refl _))) (by omega) (by omega)
        passes.1
      rw [hheader] at hread
      cases hread
    | ok header' =>
      obtain ⟨rfl, valid⟩ := hok header' rfl
      have succeeds := imageReadHeaderFromStore_succeeds hheader
      have hpatch : s₁.flash.area .patch = f₂.patch := reads.patch.symm
      have hreads : payloadReads f₂.patch + 2 = 1 + (payloadReads f₂.patch + 1) := by omega
      rw [hpatch] at valid ⊢
      obtain ⟨f₃, ret, hcheck, more, hcases⟩ := imageCheckStore_staged (s := s₁.read f₂) refuses
        complete₁ slot partition covers harea header valid
      refine ⟨_, ret, hcheck, ?_⟩
      have hfirst : s.flash.Logs P f₃ ↔ f₂.Logs P f₃ := (write.trans logs).behind_iff more
      rw [← reads.patch, hreads, ← succeeds.answers_iff, ← succeeds.toCounts.copies_iff]
      refine (or_congr_right hfirst).trans (hcases.trans ?_)
      exact ⟨fun h _ => h, fun h => h rfl⟩

end Staged

/-! ## When a rejected image is kept out -/

/-- A finish that goes on to the checks. -/
def Completes (status : Ret) (s : Store) : Prop :=
  status = .ok ∧ s.ctx.written = s.ctx.expectedSize

instance (status : Ret) (s : Store) : Decidable (Completes status s) := by
  unfold Completes
  infer_instance

/-- Without a `patch_partition`. A session that is given up leaves bytes in the slot that a reader
does not accept. A complete one leaves such bytes too, or they pass the checks of the finish as well
and no call fails on the way. -/
structure DirectKeepsOut (b : Board) (status : Ret) (s : Store) : Prop where
  givenUp : ¬ Completes status s → ¬ Accepts b s.flash.slot
  complete : Completes status s → Accepts b (s.settle b).1.slot →
    (s.settle b).2 = .ok ∧ Passes b s.ctx.expectedSize (s.settle b).1.slot ∧
      (s.settle b).1.Answers 0 (payloadReads (s.settle b).1.slot + 1)

/-- With a `patch_partition`. The copy of an image that passes the checks is not cut short once it
has begun, behind the reads of the header and of the payload and the opening of the slot. -/
def StagedKeepsOut (b : Board) (status : Ret) (s : Store) : Prop :=
  Completes status s → (s.settle b).2 = .ok → Passes b s.ctx.expectedSize (s.settle b).1.patch →
    (s.settle b).1.Answers 0 (payloadReads (s.settle b).1.patch + 2) →
      0 < b.slot.align → b.slot.align ≤ 128 →
        Copies b s.ctx.expectedSize (payloadReads (s.settle b).1.patch + 2) (s.settle b).1

/-- The condition on the finish of a session, for either layout. -/
structure KeepsOut (b : Board) (status : Ret) (s : Store) : Prop where
  direct : b.directStoreArea = .slot → DirectKeepsOut b status s
  staged : b.directStoreArea = .patch → StagedKeepsOut b status s

/-- A finish of a transfer that completed closes the session behind the checks and the commit. -/
theorem imageStoreFinish_complete {status : Ret} {s : Store} (active : s.ctx.active = true)
    (h : Completes status s) : imageStoreFinish b status s =
      ((imageStoreComplete b s).1.reset, (imageStoreComplete b s).2) := by
  obtain ⟨rfl, complete⟩ := h
  unfold imageStoreFinish
  rw [if_neg (by rw [active]; simp)]
  dsimp only
  rw [if_neg (not_not.mpr complete)]

/-- A finish of any other transfer closes the session with an error, and leaves the flash alone. -/
theorem imageStoreFinish_givenUp {status : Ret} {s : Store} (active : s.ctx.active = true)
    (h : ¬ Completes status s) : ∃ e, imageStoreFinish b status s = (s.reset, .err e) := by
  unfold imageStoreFinish
  rw [if_neg (by rw [active]; simp)]
  cases status with
  | err e => exact ⟨e, rfl⟩
  | ok => exact ⟨Errno.EIO, if_pos fun complete => h ⟨rfl, complete⟩⟩

/-- Without a `patch_partition` the condition is exact: a finish that does not meet it rejects a
session and leaves an acceptable slot. -/
theorem imageStoreFinish_direct {status : Ret} {s : Store} (direct : b.directStoreArea = .slot)
    (active : s.ctx.active = true) (opened : Opened b s) :
    (imageStoreFinish b status s).2 = .ok ∨
      ¬ Accepts b (imageStoreFinish b status s).1.flash.slot ↔ DirectKeepsOut b status s := by
  by_cases completes : Completes status s
  · rw [imageStoreFinish_complete active completes]
    obtain ⟨s₁, ret, hcomplete, hslot, hok⟩ := imageStoreComplete_direct direct opened completes.2
    rw [hcomplete]
    show ret = .ok ∨ ¬ Accepts b s₁.flash.slot ↔ _
    rw [hslot, hok]
    constructor
    · intro h
      exact ⟨fun hn => absurd completes hn, fun _ accepts => h.resolve_right (not_not.mpr accepts)⟩
    · intro h
      by_cases accepts : Accepts b (s.settle b).1.slot
      · exact .inl (h.complete completes accepts)
      · exact .inr accepts
  · obtain ⟨e, hfinish⟩ := imageStoreFinish_givenUp (b := b) active completes
    rw [hfinish]
    show Ret.err e = .ok ∨ ¬ Accepts b s.flash.slot ↔ _
    constructor
    · intro h
      exact ⟨fun _ => h.resolve_left fun h => (by cases h), fun hc => absurd hc completes⟩
    · intro h
      exact .inr (h.givenUp completes)

/-- With one, a finish that does not meet the condition rejects a session and has erased the slot,
and only such a finish does. -/
theorem imageStoreFinish_staged {P : Access → Prop} (covers : Covers P .patch)
    (refuses : ¬ P (.erase .slot)) {status : Ret} {s : Store} (staged : b.directStoreArea = .patch)
    (active : s.ctx.active = true) (opened : Opened b s) :
    (imageStoreFinish b status s).2 = .ok ∨
      s.flash.Logs P (imageStoreFinish b status s).1.flash ↔ StagedKeepsOut b status s := by
  by_cases completes : Completes status s
  · rw [imageStoreFinish_complete active completes]
    obtain ⟨s₁, ret, hcomplete, hcases⟩ :=
      imageStoreComplete_staged refuses completes.2 covers staged opened
    rw [hcomplete]
    exact hcases.trans ⟨fun h _ => h, fun h => h completes⟩
  · obtain ⟨e, hfinish⟩ := imageStoreFinish_givenUp (b := b) active completes
    rw [hfinish]
    exact iff_of_true (.inr (.refl _)) fun h => absurd h completes

end Rtbus.Image
