import Rtbus.Emos.Refinement

/-!
# The size of the block of a post

`emos_post` adds the sizes of the link word, of the context and of the payload in 32 bits, and compares
the sum with `UINT16_MAX`. A payload length of 2^32 - 16 or more makes the sum wrap to less than 16.
Below 4 the linked list refuses it, but from 4 on it hands out a block of that size, and the stores of
`emos_post` go past its end.
-/

namespace Rtbus.Emos

open Rtbus.Pool Rtbus.Tiling

variable {H X : Type}

/-- The size that `emos_post` asks for. -/
def allocLen (args : PostArgs) : Nat := wrap (4 + 12 + args.payloadLen.toNat)

/-- A post that is refused leaves queues and pool as they are; one that is not has obtained a block that
all it stores fits in. -/
def PostConfined (s : Bus H X) (args : PostArgs) : Prop :=
  ∃ s' ret, emosPost s args = some (s', ret) ∧
    (((∃ e, ret = .err e) ∧ s'.taskTbl = s.taskTbl ∧ s'.heap.mem = s.heap.mem) ∨
      (ret = .ok ∧ ∃ entry heap head node bs size,
        s.backend.find args.taskId = some entry ∧
        linklistNew s.heap poolId (s.taskTbl entry.priority.toNat) (allocLen args) =
          some (heap, head, node) ∧
        Valid heap poolId bs ∧ (node, size) ∈ heap.live poolId bs ∧
        4 + 12 + args.payloadLen.toNat ≤ size))

/-- The pool has no block for a request of `n` bytes. -/
def NoRoom (s : Bus H X) (bs : List Block) (n : Nat) : Prop :=
  (s.heap.pools poolId).active = false ∨ place (poolRoom s.heap) ((n + 3) / 4 * 4) bs = none

variable {s : Bus H X} {bs : List Block} {q : Nat → List Node} {args : PostArgs} {entry : Entry H}

/-- What `emos_post` does once its arguments have passed: it asks for a block and is refused, or gets
one. -/
theorem emosPost_alloc (r : Ready s bs q) (registered : s.backend.find args.taskId = some entry)
    (given : args.payload ≠ none) :
    (∃ s' e, emosPost s args = some (s', .err e) ∧ s'.taskTbl = s.taskTbl ∧
        s'.heap.mem = s.heap.mem ∧
        (65535 < allocLen args ∨ allocLen args < 4 ∨ NoRoom s bs (allocLen args))) ∨
      (4 ≤ allocLen args ∧ allocLen args ≤ 65535 ∧ ¬ NoRoom s bs (allocLen args) ∧
        ∃ s' heap head node bs' size, emosPost s args = some (s', .ok) ∧
          linklistNew s.heap poolId (s.taskTbl entry.priority.toNat) (allocLen args) =
            some (heap, head, node) ∧
          Valid heap poolId bs' ∧ (node, size) ∈ heap.live poolId bs' ∧ allocLen args ≤ size) := by
  obtain ⟨_, hprio, _⟩ := r.registry.found _ _ registered
  have hcount : s.entryCount ≠ 0 := Nat.pos_iff_ne_zero.mp r.count_pos
  have hlen : wrap (4 + 12 + args.payloadLen.toNat) = allocLen args := rfl
  unfold emosPost
  simp only [if_neg hcount, registered]
  rw [if_neg fun h => given h.2, if_neg (Nat.not_le.mpr hprio), hlen]
  by_cases hbig : allocLen args > 65535
  · exact .inl ⟨s, _, if_pos hbig, rfl, rfl, .inl hbig⟩
  · rw [if_neg hbig]
    by_cases hfour : allocLen args < 4
    · have hnew : linklistNew s.heap poolId (s.taskTbl entry.priority.toNat) (allocLen args) =
          some (s.heap, s.taskTbl entry.priority.toNat, null) := if_pos hfour
      rw [hnew]
      exact .inl ⟨_, _, if_pos rfl, Function.update_eq_self .., rfl, .inr (.inl hfour)⟩
    · obtain ⟨heap, head, node, bs', hnew, hvalid, conf, hplace, hcase⟩ :=
        linklistNew_spec r.queued.valid (r.queued.nodes entry.priority.toNat) (allocLen args)
          (Nat.not_lt.mp hfour) (by unfold NoCarry; omega)
      rw [hnew]
      rcases hcase with ⟨rfl, rfl, rfl, hmem⟩ | ⟨hnode, l₁, l₂, size, hsize, _, hlive, _⟩
      · have hroom : NoRoom s bs' (allocLen args) := by
          cases hactive : (s.heap.pools poolId).active with
          | false => exact .inl hactive
          | true => exact .inr (hplace hactive)
        exact .inl ⟨_, _, if_pos rfl, Function.update_eq_self .., hmem, .inr (.inr hroom)⟩
      · have hmem : (node, size) ∈ heap.live poolId bs' := by
          rw [hlive]
          exact List.mem_append_right _ List.mem_cons_self
        -- a pool that has handed out a block is active
        have hactive : (s.heap.pools poolId).active = true := by
          cases hactive : (s.heap.pools poolId).active with
          | true => rfl
          | false =>
            have hempty := hvalid.empty (conf.fields.2.2.trans hactive)
            unfold Heap.live at hmem
            rw [hempty] at hmem
            cases hmem
        have hroom : ¬ NoRoom s bs (allocLen args) := by
          rintro (hinactive | hnone)
          · cases hactive.symm.trans hinactive
          · have hsome := hplace hactive
            rw [if_neg hnode] at hsome
            cases hsome.symm.trans hnone
        exact .inr ⟨Nat.not_lt.mp hfour, Nat.not_lt.mp hbig, hroom, _, heap, head, node, bs', size,
          if_neg hnode, rfl, hvalid, hmem, hsize⟩

/-- A post whose block size does not wrap is confined. -/
theorem confined_of_no_wrap (r : Ready s bs q) (registered : s.backend.find args.taskId = some entry)
    (given : args.payload ≠ none) (h : args.payloadLen.toNat + 12 < 2 ^ 32) : PostConfined s args := by
  rcases emosPost_alloc r registered given with
    ⟨s', e, hres, htbl, hmem, _⟩ | ⟨hfour, _, _, s', heap, head, node, bs', size, hres, hnew, hrest⟩
  · exact ⟨s', _, hres, .inl ⟨⟨e, rfl⟩, htbl, hmem⟩⟩
  · obtain ⟨hvalid, hlive, hsize⟩ := hrest
    have hwrap : allocLen args = 4 + 12 + args.payloadLen.toNat := by
      unfold allocLen wrap at hfour ⊢
      omega
    exact ⟨s', _, hres, .inr ⟨rfl, entry, heap, head, node, bs', size, registered, hnew, hvalid, hlive,
      hwrap ▸ hsize⟩⟩

/-- So is one that the pool refuses. -/
theorem confined_of_no_room (r : Ready s bs q) (registered : s.backend.find args.taskId = some entry)
    (given : args.payload ≠ none) (h : NoRoom s bs (allocLen args)) : PostConfined s args := by
  rcases emosPost_alloc r registered given with ⟨s', e, hres, htbl, hmem, _⟩ | ⟨_, _, hroom, _⟩
  · exact ⟨s', _, hres, .inl ⟨⟨e, rfl⟩, htbl, hmem⟩⟩
  · exact absurd h hroom

/-- A block whose size has wrapped is too small. -/
theorem not_confined_of_wrap (r : Ready s bs q) (registered : s.backend.find args.taskId = some entry)
    (given : args.payload ≠ none) (wraps : 2 ^ 32 ≤ args.payloadLen.toNat + 12)
    (room : ¬ NoRoom s bs (allocLen args)) : ¬ PostConfined s args := by
  have hlt := args.payloadLen.toNat_lt
  have hsmall : 4 ≤ allocLen args ∧ allocLen args < 16 := by
    unfold allocLen wrap
    omega
  rintro ⟨s', ret, hres, hcase⟩
  rcases hcase with ⟨⟨e, rfl⟩, _⟩ | ⟨_, _, heap, _, node, bs', size, _, _, hvalid, hlive, hsize⟩
  · -- the pool has room, so the post is taken
    rcases emosPost_alloc r registered given with ⟨_, _, _, _, _, h⟩ | ⟨_, _, _, _, _, _, _, _, _, hok, _⟩
    · rcases h with h | h | h
      · omega
      · omega
      · exact room h
    · cases hres.symm.trans hok
  · have hrange := (hvalid.live_range hlive).2
    have htop := hvalid.highWater_lt
    dsimp only at hrange
    omega

/-- With a registered task and a payload, a post is confined exactly when its length is less than
2^32 - 12 or the pool has no room for what the wrapped sum asks for. -/
theorem post_confined_iff (r : Ready s bs q) (registered : s.backend.find args.taskId = some entry)
    (given : args.payload ≠ none) :
    PostConfined s args ↔
      args.payloadLen.toNat < 2 ^ 32 - 12 ∨ NoRoom s bs (wrap (16 + args.payloadLen.toNat)) := by
  constructor
  · intro h
    by_contra hno
    obtain ⟨hwraps, hroom⟩ := not_or.mp hno
    exact not_confined_of_wrap r registered given (by omega) hroom h
  · rintro (h | h)
    · exact confined_of_no_wrap r registered given (by omega)
    · exact confined_of_no_room r registered given h

/-- A table with one task that gets no `INIT` event. -/
def quietTask : EntryTable Unit :=
  { entries := [{ taskId := 1, priority := 0, taskEntry := some (), init := false, always := false }]
    count_lt := by decide }

/-- The bus that `rtbus_init` leaves with it. -/
theorem quiet_ready : ∃ s : Bus Unit (Log Unit),
    rtbusInit (Bus.boot (.table none)) 0x20001000 256 (some quietTask) = some (s, .ok) ∧
      Ready s [] (fun _ => []) ∧ (∃ entry, s.backend.find 1 = some entry) ∧ ∀ n ≤ 16, ¬ NoRoom s [] n := by
  obtain ⟨v, _⟩ := @initMemPool_spec (Bus.boot (.table none) : Bus Unit (Log Unit)).heap poolId
    0x20001000 256 (by decide) (by decide)
  have hregistry := (Backend.init_ok (show (Backend.table none : Backend Unit).reset.init
    (some quietTask) = (_, .ok, 1) from rfl)).1
  refine ⟨_, rfl, ⟨queued_fresh v, hregistry, by decide, fun _ _ h => by cases h⟩, ⟨_, rfl⟩, ?_⟩
  rintro n hn (h | h)
  · cases h
  · -- the pool has 255 bytes, and all of them are free
    have hplace : place 255 ((n + 3) / 4 * 4) [] = some [⟨true, (n + 3) / 4 * 4⟩] := by
      unfold place
      rw [extent_nil, if_pos (by omega), List.nil_append]
    cases hplace.symm.trans h

/-- A post of as many zeros as its length says. -/
def zerosPost (len : UInt32) : PostArgs :=
  { taskId := 1
    ctxId := 0
    payload := some (List.replicate len.toNat 0)
    payloadLen := len
    readable := fun bytes h => by
      cases h
      rw [List.length_replicate] }

/-- A short post is confined. -/
theorem short_post_confined : ∃ s : Bus Unit (Log Unit), PostConfined s (zerosPost 3) := by
  obtain ⟨s, _, r, ⟨entry, registered⟩, _⟩ := quiet_ready
  have given : (zerosPost 3).payload ≠ none := nofun
  exact ⟨s, (post_confined_iff r registered given).mpr (.inl (by decide))⟩

/-- A post of 2^32 - 12 bytes gets a block of four. -/
theorem wrapped_post_overruns : ∃ s : Bus Unit (Log Unit),
    rtbusInit (Bus.boot (.table none)) 0x20001000 256 (some quietTask) = some (s, .ok) ∧
      ¬ PostConfined s (zerosPost 0xfffffff4) := by
  obtain ⟨s, hinit, r, ⟨entry, registered⟩, room⟩ := quiet_ready
  refine ⟨s, hinit, not_confined_of_wrap r registered nofun ?_ (room _ ?_)⟩
  · show 2 ^ 32 ≤ UInt32.toNat 0xfffffff4 + 12
    decide
  · show wrap (4 + 12 + UInt32.toNat 0xfffffff4) ≤ 16
    decide

end Rtbus.Emos
