import Rtbus.Cli.Upgrade
import Rtbus.Image.Rejection

/-!
# Rejected images

An image that `rtbus_image_store_finish` has rejected is not to be run. `Uploads` is the image store
with its history: what the sessions that were rejected have left in the slot since one succeeded.
Whoever reads the slot checks it anew, and does not ask what became of the session that wrote it. So
what is left must not pass those checks (`rejected_never_run`), which a finish does not see to:
`rejected_image_runs` is an image that declares too much RAM.
-/

namespace Rtbus.Cli

open Rtbus.Image Rtbus.Native Rtbus.Run

/-- The calls of the store, and those that read the slot. -/
inductive StoreCall
  | storeBegin (imageSize : Nat)
  | storeWrite (offset : Nat) (data : List UInt8)
  | storeFinish (status : Ret)
  | getStatus
  | start (v : Service)

/-- The store with its history. `opened` is how often the slot had been changed when the session was
opened, `rejected` what the rejected sessions that have changed the slot left in it, since a session
succeeded. -/
structure Uploads where
  store : Store
  opened : Nat
  rejected : List Memory

namespace Uploads

/-- The history behind a finish. Without a session there is none to reject. -/
def verdict (s : Uploads) (f : Flash) (ret : Ret) : List Memory :=
  if s.store.ctx.active = false then s.rejected
  else if ret = .ok then []
  else if slotChanges f = s.opened then s.rejected
  else f.slot :: s.rejected

/-- The flash was read. -/
def read (s : Uploads) (f : Flash) : Uploads := { s with store := { s.store with flash := f } }

/-- What a call does. -/
def step (m : Machine) : StoreCall → Uploads → Uploads
  | .storeBegin imageSize, s =>
    { s with
      store := (imageStoreBegin m.toBoard imageSize s.store).1
      opened := if s.store.ctx.active then s.opened else slotChanges s.store.flash }
  | .storeWrite offset data, s =>
    { s with store := (imageStoreWrite m.toBoard offset data s.store).1 }
  | .storeFinish status, s =>
    { s with
      store := (imageStoreFinish m.toBoard status s.store).1
      rejected := s.verdict (imageStoreFinish m.toBoard status s.store).1.flash
        (imageStoreFinish m.toBoard status s.store).2 }
  | .getStatus, s => s.read (imageGetStatus m.toBoard s.store.flash).1
  | .start v, s => s.read (nativeServiceStartFrom m s.store.flash v).1

/-- Before the first session. -/
def Fresh (s : Uploads) : Prop := s.store.ctx = .zero ∧ s.rejected = []

/-- Every finish of a session meets the condition. -/
def Meets (b : Board) (s : Uploads) : StoreCall → Prop
  | .storeFinish status => s.store.ctx.active = true → KeepsOut b status s.store
  | _ => True

/-- As long as the slot holds what a rejected session has left in it, its status is an error, and no
start makes a thread. -/
def NeverRun (m : Machine) (s : Uploads) : Prop :=
  ∀ left ∈ s.rejected, s.store.flash.slot.slice 0 m.slot.size = left.slice 0 m.slot.size →
    (imageGetStatus m.toBoard s.store.flash).2.1 ≠ .ok ∧
      ∀ v : Service, v.threadId = false →
        (nativeServiceStartFrom m s.store.flash v).2.1.threadId = false

end Uploads

/-! ## What the readers accept -/

/-- The checks of a reader depend on the bytes of the slot. -/
theorem accepts_congr {b : Board} {m m' : Memory}
    (h : m.slice 0 b.slot.size = m'.slice 0 b.slot.size) (accepts : Image.Accepts b m) :
    Image.Accepts b m' := by
  obtain ⟨valid, hcrc⟩ := accepts
  have room := valid.room
  have hheader : headerOf m = headerOf m' :=
    headerOf_congr h (Nat.le_trans (Nat.le_add_right ..) room)
  rw [blockwiseCrc_congr h room, hheader] at hcrc
  exact ⟨hheader ▸ valid, hcrc⟩

/-- A start that makes a thread has found an acceptable slot. -/
theorem accepts_of_started {m : Machine} {f : Flash} {v : Service} (none_ : v.threadId = false)
    (started : (nativeServiceStartFrom m f v).2.1.threadId = true) :
    Image.Accepts m.toBoard f.slot := by
  unfold nativeServiceStartFrom at started
  split at started
  · rw [none_] at started
    cases started
  · rw [if_neg (by rw [none_]; simp)] at started
    cases hload : nativeLoad m f v with
    | mk f' r =>
      obtain ⟨v', ret⟩ := r
      rw [hload] at started
      cases ret with
      | err e => cases started
      | ok =>
        obtain ⟨_, _, _, hload', _, _, hok, _⟩ :=
          nativeLoad_spec (m := m) (P := fun _ => True) f v fun _ _ _ => trivial
        rw [hload] at hload'
        cases hload'
        exact (hok rfl).accepts

/-! ## The invariant -/

/-- The staging partition is not the slot. -/
theorem covers_patch : Covers (fun x => changesSlot x = false) .patch :=
  ⟨fun _ _ => rfl, fun _ _ => rfl, rfl⟩

namespace Uploads

/-- What was left behind is not acceptable; a session is as it was opened, and does not change the
slot if it is staged elsewhere. -/
structure Kept (b : Board) (s : Uploads) : Prop where
  rejected : ∀ left ∈ s.rejected, ¬ Image.Accepts b left
  opened : s.store.ctx.active = true → Opened b s.store
  untouched : s.store.ctx.active = true → b.directStoreArea = .patch →
    slotChanges s.store.flash = s.opened

variable {m : Machine} {s : Uploads}

/-- A session that is opened has passed its checks. -/
theorem Kept.storeBegin (h : s.Kept m.toBoard) (imageSize : Nat) :
    (s.step m (.storeBegin imageSize)).Kept m.toBoard := by
  by_cases active : s.store.ctx.active = true
  · have hstore : (s.step m (.storeBegin imageSize)).store = s.store := by
      show (imageStoreBegin m.toBoard imageSize s.store).1 = s.store
      unfold imageStoreBegin
      split <;> rfl
    refine ⟨h.rejected, fun _ => by rw [hstore]; exact h.opened active, fun _ staged => ?_⟩
    rw [hstore]
    exact (h.untouched active staged).trans (if_pos active).symm
  · have inactive : s.store.ctx.active = false := by simpa using active
    refine ⟨h.rejected, imageStoreBegin_opened imageSize inactive, fun _ staged => ?_⟩
    have logs := imageStoreBegin_logs (b := m.toBoard) (staged ▸ covers_patch) imageSize s.store
    exact (slotChanges_of_log logs).trans (if_neg active).symm

/-- Writing to it leaves it open, and the slot alone if it is staged elsewhere. -/
theorem Kept.storeWrite (h : s.Kept m.toBoard) (offset : Nat) (data : List UInt8) :
    (s.step m (.storeWrite offset data)).Kept m.toBoard := by
  have hactive := imageStoreWrite_active (b := m.toBoard) offset data s.store
  refine ⟨h.rejected, fun active => imageStoreWrite_opened offset data
    (h.opened (hactive.symm.trans active)), fun active staged => ?_⟩
  have active : s.store.ctx.active = true := hactive.symm.trans active
  obtain ⟨d, g⟩ := (h.opened active).gathered
  have logs := imageStoreWrite_logs (b := m.toBoard) covers_patch offset data
    (g.area.trans (congrArg some staged))
  exact (slotChanges_of_log logs).trans (h.untouched active staged)

/-- Closing it leaves bytes behind that are kept out. -/
theorem Kept.storeFinish (h : s.Kept m.toBoard) {status : Ret}
    (meets : s.store.ctx.active = true → KeepsOut m.toBoard status s.store) :
    (s.step m (.storeFinish status)).Kept m.toBoard := by
  have closed := imageStoreFinish_closes m.toBoard status s.store
  have inactive : ∀ {p : Prop}, (s.step m (.storeFinish status)).store.ctx.active = true → p :=
    fun active => by
      rw [show (s.step m (.storeFinish status)).store.ctx.active = false from closed] at active
      cases active
  refine ⟨fun left hleft => ?_, inactive, inactive⟩
  unfold step verdict at hleft
  dsimp only at hleft
  split at hleft
  · exact h.rejected left hleft
  · rename_i active
    have active : s.store.ctx.active = true := by simpa using active
    split at hleft
    · cases hleft
    · rename_i hret
      split at hleft
      · exact h.rejected left hleft
      · rename_i changed
        rcases List.mem_cons.mp hleft with rfl | hleft
        · obtain ⟨direct, staged⟩ := meets active
          cases harea : m.toBoard.directStoreArea with
          | slot =>
            have := (imageStoreFinish_direct harea active (h.opened active)).mpr (direct harea)
            exact this.resolve_left hret
          | patch =>
            have logs := (imageStoreFinish_staged covers_patch (by decide) harea active
              (h.opened active)).mpr (staged harea)
            exact absurd ((slotChanges_of_log (logs.resolve_left hret)).trans
              (h.untouched active harea)) changed
        · exact h.rejected left hleft

/-- Reading keeps everything. -/
theorem Kept.read (h : s.Kept m.toBoard) {f : Flash}
    (reads : s.store.flash.Reads (fun x => changesSlot x = false) f) :
    (s.read f).Kept m.toBoard := by
  refine ⟨h.rejected, fun active => ?_, fun active staged =>
    (slotChanges_of_log reads.log).trans (h.untouched active staged)⟩
  have opened := h.opened active
  obtain ⟨d, g⟩ := opened.gathered
  refine { opened with gathered := ⟨d, { g with bytes := ?_ }⟩ }
  show (f.area _).slice 0 _ ++ _ = d
  rw [reads.area]
  exact g.bytes

/-- Every call keeps it. -/
theorem Kept.step (h : s.Kept m.toBoard) {c : StoreCall} (meets : s.Meets m.toBoard c) :
    (s.step m c).Kept m.toBoard := by
  cases c with
  | storeBegin imageSize => exact h.storeBegin imageSize
  | storeWrite offset data => exact h.storeWrite offset data
  | storeFinish status => exact h.storeFinish meets
  | getStatus =>
    obtain ⟨f', ret, status, hget, reads, _⟩ := imageGetStatus_spec (b := m.toBoard)
      (P := fun x => changesSlot x = false) s.store.flash fun _ _ _ => rfl
    show (s.read (imageGetStatus m.toBoard s.store.flash).1).Kept m.toBoard
    rw [hget]
    exact h.read reads
  | start v =>
    obtain ⟨f', v', ret, hstart, reads, _⟩ := nativeServiceStartFrom_spec m s.store.flash v
    show (s.read (nativeServiceStartFrom m s.store.flash v).1).Kept m.toBoard
    rw [hstart]
    exact h.read reads

/-- What is kept out is never run. -/
theorem Kept.neverRun (h : s.Kept m.toBoard) : s.NeverRun m := by
  intro left hleft hsame
  have refuses : ¬ Image.Accepts m.toBoard s.store.flash.slot := fun accepts =>
    h.rejected left hleft (accepts_congr hsame accepts)
  refine ⟨fun ok => ?_, fun v none_ => ?_⟩
  · obtain ⟨f', ret, status, hget, _, hok, _⟩ := imageGetStatus_spec (b := m.toBoard)
      (P := fun _ => True) s.store.flash fun _ _ _ => trivial
    rw [hget] at ok
    exact refuses (hok ok).1
  · by_contra started
    exact refuses (accepts_of_started none_ (by simpa using started))

/-- In every run in which the finish of each session meets the condition, what a rejected session
has left in the slot is never run. -/
theorem rejected_never_run (m : Machine) {s : Uploads}
    (run : Reachable Fresh (fun s c s' => s.Meets m.toBoard c ∧ s.step m c = s') s) :
    s.NeverRun m := by
  refine (run.invariant (I := fun s : Uploads => s.Kept m.toBoard) ?_ ?_).neverRun
  · rintro s ⟨idle, none_⟩
    have inactive : s.store.ctx.active ≠ true := by
      rw [idle]
      exact Bool.false_ne_true
    refine ⟨fun left hleft => ?_, fun h => absurd h inactive, fun h => absurd h inactive⟩
    rw [none_] at hleft
    cases hleft
  · rintro s c _ kept ⟨meets, rfl⟩
    exact kept.step meets

/-- Before the first session, with an erased flash of which no call fails. -/
def erased : Uploads :=
  { store :=
      { ctx := .zero
        flash :=
          { slot := fun _ => 0xff
            patch := fun _ => 0xff
            fate := fun _ => ⟨.ok, fun _ => 0⟩
            calls := 0
            log := [] } }
    opened := 0
    rejected := [] }

/-- A file is given in one write. -/
def given (file : List UInt8) : Uploads :=
  (erased.step sampleMachine (.storeBegin file.length)).step sampleMachine (.storeWrite 0 file)

/-- The session of the file is over. -/
def uploaded (file : List UInt8) : Uploads := (given file).step sampleMachine (.storeFinish .ok)

theorem mem_rejected {file : List UInt8} (active : (given file).store.ctx.active = true)
    (rejects : (imageStoreFinish sampleMachine.toBoard .ok (given file).store).2 ≠ .ok)
    (changes : slotChanges (imageStoreFinish sampleMachine.toBoard .ok (given file).store).1.flash ≠
      (given file).opened) :
    (uploaded file).store.flash.slot ∈ (uploaded file).rejected := by
  show _ ∈ (given file).verdict _ _
  unfold verdict
  rw [if_neg (by rw [active]; simp), if_neg rejects, if_neg changes]
  exact List.mem_cons_self ..

theorem uploaded_run {file : List UInt8}
    (meets : KeepsOut sampleMachine.toBoard .ok (given file).store) :
    Reachable Fresh (fun s c s' => s.Meets sampleMachine.toBoard c ∧ s.step sampleMachine c = s')
      (uploaded file) := by
  have start : Reachable Fresh (fun s c s' =>
      s.Meets sampleMachine.toBoard c ∧ s.step sampleMachine c = s') erased := .start ⟨rfl, rfl⟩
  have opened := start.step (a := StoreCall.storeBegin file.length) ⟨trivial, rfl⟩
  have written := opened.step (a := StoreCall.storeWrite 0 file) ⟨trivial, rfl⟩
  exact written.step (a := StoreCall.storeFinish .ok) ⟨fun _ => meets, rfl⟩

theorem imageName_string : 0 ∉ [(97 : UInt8), 98] := by decide

/-- A packed image for an amount of RAM. -/
def imageFor (ramSize : UInt32) : List UInt8 :=
  Host.packedFile (sampleSymbols 0x20035004) ⟨[97, 98], imageName_string⟩
    ⟨[49], Host.smallVersion_string⟩ ramSize [1, 2, 3, 4, 5, 6, 7, 8]

/-- An image with its last byte changed. -/
def tornImage : List UInt8 := (imageFor 0x400).dropLast ++ [9]

/-- It is rejected, and not run. -/
theorem torn_never_run : (uploaded tornImage).rejected ≠ [] ∧
    (uploaded tornImage).NeverRun sampleMachine := by
  have active : (given tornImage).store.ctx.active = true := by decide +kernel
  have completes : Completes .ok (given tornImage).store := by decide +kernel
  have refuses : ¬ Image.Accepts sampleMachine.toBoard
      ((given tornImage).store.settle sampleMachine.toBoard).1.slot := by decide +kernel
  have rejects : (imageStoreFinish sampleMachine.toBoard .ok (given tornImage).store).2 ≠ .ok := by
    decide +kernel
  have changes : slotChanges (imageStoreFinish sampleMachine.toBoard .ok
      (given tornImage).store).1.flash ≠ (given tornImage).opened := by
    decide +kernel
  have meets : KeepsOut sampleMachine.toBoard .ok (given tornImage).store :=
    ⟨fun _ => ⟨fun hn => absurd completes hn, fun _ accepts => absurd accepts refuses⟩,
      fun staged => by cases staged⟩
  exact ⟨List.ne_nil_of_mem (mem_rejected active rejects changes),
    rejected_never_run sampleMachine (uploaded_run meets)⟩

/-- An image for a byte of RAM more than there is, is rejected, and makes a thread. -/
theorem rejected_image_runs : ¬ ∀ (m : Machine) (s : Uploads),
    Reachable Fresh (fun s c s' => s.step m c = s') s → s.NeverRun m := by
  intro h
  have active : (given (imageFor 0x2001)).store.ctx.active = true := by decide +kernel
  have rejects : (imageStoreFinish sampleMachine.toBoard .ok (given (imageFor 0x2001)).store).2 =
      .err .ENOMEM := by
    decide +kernel
  have changes : slotChanges (imageStoreFinish sampleMachine.toBoard .ok
      (given (imageFor 0x2001)).store).1.flash ≠ (given (imageFor 0x2001)).opened := by
    decide +kernel
  have started : (nativeServiceStartFrom sampleMachine (uploaded (imageFor 0x2001)).store.flash
      Service.boot).2.1.threadId = true := by
    decide +kernel
  have run : Reachable Fresh (fun s c s' => s.step sampleMachine c = s')
      (uploaded (imageFor 0x2001)) := .step (.step (.step (.start ⟨rfl, rfl⟩) rfl) rfl) rfl
  have stays := (h sampleMachine _ run _
    (mem_rejected active (by rw [rejects]; simp) changes) rfl).2 Service.boot rfl
  rw [started] at stays
  cases stays

end Uploads

end Rtbus.Cli
