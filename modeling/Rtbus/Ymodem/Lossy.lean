import Rtbus.Base.Run
import Rtbus.Ymodem.Agreement

/-!
# Lost replies

A sender repeats its packet until it hears an ACK. Its packets arrive intact and in time, but of what
the receiver answers any byte may be lost. `Exchange` is one packet and its answer.

The receiver takes the block that it expects and no other, so it refuses a copy of the block that it
accepted last: the answer is NAK and nothing is stored. A sender that has not heard the ACK of such a
block repeats it for ever. What else is lost does no harm: a NAK is not waited for, and the end of the
file is confirmed as often as it is announced. In any case the bytes stored are those of the blocks
that were accepted, each once (`lossy_replies`).
-/

namespace Rtbus.Ymodem

open Rtbus.Image Network Run

/-- What a sender makes of a file: for each data block the byte that starts it, and its payload. -/
abbrev Cutting := List (UInt8 × List UInt8)

/-- The payloads of some blocks. -/
def Cutting.bytes (blocks : Cutting) : List UInt8 := blocks.flatMap Prod.snd

/-- The blocks are whole, and they are the file with something behind it. -/
structure Cuts (file : List UInt8) (blocks : Cutting) : Prop where
  whole : ∀ block ∈ blocks, payloadLen block.1 = some block.2.length
  bytes : blocks.bytes.take file.length = file

/-- All packets of a transfer: the metadata, the blocks, the end of the file, and the packet without
a name. -/
def packets (path file : List UInt8) (blocks : Cutting) : List (List UInt8) :=
  sendPacket soh 0 (metadataBlock path file.length) ::
    (blocks.mapIdx (fun i block => sendPacket block.1 (UInt8.ofNat (i + 1)) block.2) ++
      [[eot], sendPacket soh 0 (List.replicate block128 0)])

/-- The sender with the number of its packet, and the receiver between two turns of its loop. -/
structure Relay where
  packet : Nat
  receiver : Outcome
  endpoint : Endpoint

/-- What the receiver says to a packet, and what the sender hears of it. -/
structure Reply where
  said : List UInt8
  heard : List UInt8

/-- What one packet does: what the receiver says, and where it is then. -/
def Answered (b : Board) (behind path file : List UInt8) (blocks : Cutting) (c : Relay)
    (said : List UInt8) (receiver' : Outcome) (endpoint' : Endpoint) : Prop :=
  ∃ v packet, c.receiver = .inl v ∧ (packets path file blocks)[c.packet]? = some packet ∧
    (turn behind v).run (receiver b behind).server (c.endpoint, packet, []) =
      some (receiver', endpoint', [], said)

/-- The sender moves on if it has heard an ACK. -/
def moved (packet : Nat) (heard : List UInt8) : Nat := if ack ∈ heard then packet + 1 else packet

/-- One packet and its answer, of which the sender hears what is not lost. -/
def Exchange (b : Board) (behind path file : List UInt8) (blocks : Cutting) (c : Relay) (r : Reply)
    (c' : Relay) : Prop :=
  Answered b behind path file blocks c r.said c'.receiver c'.endpoint ∧ r.heard.Sublist r.said ∧
    c'.packet = moved c.packet r.heard

/-- The packet that the sender is at is the one that the receiver accepted last: the sender has not
heard its ACK. -/
def Relay.Unheard (c : Relay) : Prop :=
  ∃ v, c.receiver = .inl v ∧ v.gotMetadata = true ∧ v.accepted.length = c.packet

/-- The receiver has returned 0, and the slot begins with the file. -/
def Relay.Done (c : Relay) (file : List UInt8) : Prop :=
  (∃ v, c.receiver = .inr (.ok, v)) ∧ c.endpoint.store.flash.slot.slice 0 file.length = file

/-- The start, with a receiver that has asked for a packet. -/
def Relay.start (data : List UInt8) (s : Store) : Relay :=
  { packet := 0, receiver := .inl (.init data), endpoint := ⟨s, [0]⟩ }

section Packets

variable {path file : List UInt8} {blocks : Cutting}

theorem packets_metadata : (packets path file blocks)[0]? =
    some (sendPacket soh 0 (metadataBlock path file.length)) := rfl

theorem packets_block {k : Nat} {block : UInt8 × List UInt8} (h : blocks[k]? = some block) :
    (packets path file blocks)[k + 1]? =
      some (sendPacket block.1 (UInt8.ofNat (k + 1)) block.2) := by
  have hk := (List.getElem?_eq_some_iff.mp h).1
  unfold packets
  rw [List.getElem?_cons_succ, List.getElem?_append_left (by rwa [List.length_mapIdx]),
    List.getElem?_mapIdx, h]
  rfl

theorem packets_behind (j : Nat) : (packets path file blocks)[blocks.length + 1 + j]? =
    [[eot], sendPacket soh 0 (List.replicate block128 0)][j]? := by
  have hlen : (blocks.mapIdx fun i block =>
      sendPacket block.1 (UInt8.ofNat (i + 1)) block.2).length = blocks.length := List.length_mapIdx
  unfold packets
  rw [Nat.add_right_comm, List.getElem?_cons_succ, List.getElem?_append_right (by omega), hlen,
    Nat.add_sub_cancel_left]

end Packets

/-! ## The receiver's turns -/

section Turns

variable {b : Board} {behind path file : List UInt8} {blocks : Cutting} {v : Locals} {e : Endpoint}
  {s : Store} {k : Nat}

/-- A block that the receiver does not expect is refused. -/
theorem repeated_turn {start number : UInt8} {data : List UInt8}
    (whole : payloadLen start = some data.length) (metadata : v.gotMetadata = true)
    (eot : v.eotSeen = false) (other : number ≠ v.expectedBlock) :
    (turn behind v).run (receiver b behind).server (e, sendPacket start number data, []) =
      some (.inl { v with data := receiveInto v.data data }, e, [], [nak]) := by
  rw [sendPacket_eq, run_turn start metadata, run_recvHeader number whole]
  unfold recvPacket recvBlock
  dsimp only
  rw [if_neg (by rw [metadata]; simp), if_neg (by rw [eot]; simp), if_pos other, Prog.run_bind,
    run_put]
  rfl

/-- The metadata and `k` blocks were accepted. -/
structure Taken (b : Board) (file : List UInt8) (blocks : Cutting) (k : Nat) (v : Locals)
    (s : Store) : Prop where
  inside : k ≤ blocks.length
  transfer : Transfer b file.length (Cutting.bytes (blocks.take k)) (UInt8.ofNat (k + 1)) v s
  accepted : v.accepted.map Block.payload = (blocks.take k).map Prod.snd

theorem Taken.count (h : Taken b file blocks k v s) : v.accepted.length = k := by
  have hmap := congrArg List.length h.accepted
  rw [List.length_map, List.length_map, List.length_take, Nat.min_eq_left h.inside] at hmap
  exact hmap

/-- What is in the receiver's buffer does not matter. -/
theorem Taken.data (h : Taken b file blocks k v s) (data : List UInt8) :
    Taken b file blocks k { v with data := data } s :=
  ⟨h.inside, ⟨h.transfer.metadata, h.transfer.eot, h.transfer.expected, h.transfer.block,
    h.transfer.session, h.transfer.received, h.transfer.fine⟩, h.accepted⟩

variable (behind blocks) in
/-- The first turn: the metadata are accepted. -/
theorem first_turn (geometry : b.Geometry) (small : b.slot.size < 2 ^ 32 - 1) (fine : s.flash.Fine)
    (inactive : s.ctx.active = false) (fits : Fits path file) (storable : Storable b file)
    (data : List UInt8) : ∃ v' s',
      (turn behind (.init data)).run (receiver b behind).server
          (⟨s, [0]⟩, sendPacket soh 0 (metadataBlock path file.length), []) =
        some (.inl v', ⟨s', []⟩, [], [ack, crcRequest]) ∧ Taken b file blocks 0 v' s' := by
  have hsize : ymodemParseFileSize (receiveInto data (metadataBlock path file.length) ++ behind)
      128 = file.length := announced_of_fits small fits storable data behind
  have hpos : file.length ≠ 0 :=
    Nat.ne_of_gt (Nat.lt_of_lt_of_le (by decide) storable.header)
  obtain ⟨s', ret, hbegin, changes, hok, _, hfine⟩ := imageStoreBegin_spec (b := b) file.length
    inactive
  obtain rfl := hfine fine geometry storable.header storable.slot storable.partition
  refine ⟨_, s', (metadata_turn behind file path data s [] []).trans
    (run_recvMetadata_begun [] 128 (fun h => hpos (hsize.symm.trans h))
      (by rw [hsize]; exact hbegin)), ?_⟩
  refine ⟨Nat.zero_le _, ⟨rfl, rfl, hsize, rfl, ?_, ?_, changes.fine fine⟩, ?_⟩
  · simpa [Cutting.bytes] using hok rfl
  · simp [Cutting.bytes, Locals.init]
  · simp [Locals.init]

variable (path behind) in
/-- The next block is accepted. -/
theorem Taken.block_turn (geometry : b.Geometry) (cuts : Cuts file blocks)
    (h : Taken b file blocks k v e.store) (more : k < blocks.length) : ∃ packet v' s',
      (packets path file blocks)[k + 1]? = some packet ∧
      (turn behind v).run (receiver b behind).server (e, packet, []) =
        some (.inl v', { e with store := s' }, [], [ack]) ∧ Taken b file blocks (k + 1) v' s' := by
  have hblock : blocks[k]? = some blocks[k] := List.getElem?_eq_getElem more
  have htake : blocks.take (k + 1) = blocks.take k ++ [blocks[k]] := by
    rw [List.take_add_one, hblock]
    rfl
  obtain ⟨v', s', hturn, transfer, accepted⟩ := Ymodem.block_turn behind [] geometry h.transfer
    (cuts.whole blocks[k] (List.getElem_mem more))
  refine ⟨_, v', s', packets_block hblock, hturn, more, ?_, ?_⟩
  · have hbytes : Cutting.bytes (blocks.take (k + 1)) =
        Cutting.bytes (blocks.take k) ++ blocks[k].2 := by
      rw [htake, Cutting.bytes, List.flatMap_append, List.flatMap_singleton]
      rfl
    have hnumber : UInt8.ofNat (k + 1 + 1) = UInt8.ofNat (k + 1) + 1 := UInt8.ofNat_add ..
    rw [hbytes, hnumber]
    exact transfer
  · rw [accepted, h.accepted, htake, List.map_append]
    rfl

variable (path behind) in
/-- A copy of the block accepted last is refused, be it the metadata. -/
theorem Taken.repeated_turn (cuts : Cuts file blocks) (h : Taken b file blocks k v e.store) :
    ∃ packet data', (packets path file blocks)[k]? = some packet ∧
      (turn behind v).run (receiver b behind).server (e, packet, []) =
        some (.inl { v with data := data' }, e, [], [nak]) := by
  obtain ⟨metadata, eot, _, block, _⟩ := h.transfer
  cases k with
  | zero =>
    refine ⟨_, _, packets_metadata, Ymodem.repeated_turn ?_ metadata eot ?_⟩
    · rw [length_metadataBlock]
      rfl
    · rw [block]
      decide
  | succ k =>
    have hk : k < blocks.length := h.inside
    have hblock : blocks[k]? = some blocks[k] := List.getElem?_eq_getElem hk
    refine ⟨_, _, packets_block hblock,
      Ymodem.repeated_turn (cuts.whole blocks[k] (List.getElem_mem hk)) metadata eot ?_⟩
    rw [block]
    intro same
    have hmod := congrArg UInt8.toNat same
    rw [UInt8.toNat_ofNat', UInt8.toNat_ofNat'] at hmod
    omega

/-- The end of the file was announced. -/
structure Ended (b : Board) (file : List UInt8) (blocks : Cutting) (v : Locals) (s : Store) :
    Prop where
  metadata : v.gotMetadata = true
  eot : v.eotSeen = true
  accepted : v.accepted.map Block.payload = blocks.map Prod.snd
  session : Session b file.length file s
  fine : s.flash.Fine

variable (path behind) in
/-- The end of the file is announced. -/
theorem Taken.eot_turn (cuts : Cuts file blocks) (h : Taken b file blocks blocks.length v e.store) :
    (packets path file blocks)[blocks.length + 1]? = some [Ymodem.eot] ∧
      (turn behind v).run (receiver b behind).server (e, [Ymodem.eot], []) =
        some (.inl { v with eotSeen := true }, e, [], [nak]) ∧
      Ended b file blocks { v with eotSeen := true } e.store := by
  have session := h.transfer.session
  rw [List.take_length, cuts.bytes] at session
  refine ⟨packets_behind 0, Ymodem.eot_turn h.transfer, h.transfer.metadata, rfl, ?_, session,
    h.transfer.fine⟩
  rw [← List.take_length (l := blocks)]
  exact h.accepted

variable (path behind) in
/-- The session is finished, and the slot begins with the file. -/
theorem Ended.finish_turn (geometry : b.Geometry) (storable : Storable b file)
    (h : Ended b file blocks v e.store) : ∃ packet v' s',
      (packets path file blocks)[blocks.length + 2]? = some packet ∧
      (turn behind v).run (receiver b behind).server (e, packet, []) =
        some (.inr (.ok, v'), { e with store := s' }, [], [ack]) ∧
      s'.flash.slot.slice 0 file.length = file := by
  obtain ⟨s', ret, hfinish, _, _, hok, hfine⟩ := imageStoreFinish_spec h.session .ok
  obtain rfl := hfine h.fine geometry rfl rfl storable.accepts
  obtain ⟨v', hturn⟩ := Ymodem.finish_turn behind [] h.metadata h.eot hfinish
  exact ⟨_, v', s', packets_behind 1, hturn, (hok rfl).2.2.2.1⟩

end Turns

/-! ## Runs -/

section Runs

variable {b : Board} {behind path file data : List UInt8} {blocks : Cutting} {s : Store}

/-- Where a run can be. -/
inductive Progress (b : Board) (file data : List UInt8) (blocks : Cutting) (s : Store) : Relay → Prop
  | opening : Progress b file data blocks s (.start data s)
  | heard {k : Nat} {v : Locals} {e : Endpoint} (taken : Taken b file blocks k v e.store) :
    Progress b file data blocks s ⟨k + 1, .inl v, e⟩
  | unheard {k : Nat} {v : Locals} {e : Endpoint} (taken : Taken b file blocks k v e.store) :
    Progress b file data blocks s ⟨k, .inl v, e⟩
  | ended {j : Nat} {v : Locals} {e : Endpoint} (last : j < 2)
    (ended : Ended b file blocks v e.store) :
    Progress b file data blocks s ⟨blocks.length + 1 + j, .inl v, e⟩
  | returned {packet : Nat} {v : Locals} {e : Endpoint}
    (slot : e.store.flash.slot.slice 0 file.length = file) :
    Progress b file data blocks s ⟨packet, .inr (.ok, v), e⟩

theorem Answered.exchange {c : Relay} {said heard : List UInt8} {o : Outcome} {e : Endpoint}
    (h : Answered b behind path file blocks c said o e) (sub : heard.Sublist said) :
    Exchange b behind path file blocks c ⟨said, heard⟩ ⟨moved c.packet heard, o, e⟩ := ⟨h, sub, rfl⟩

/-- There is one answer. -/
theorem Answered.unique {c c' : Relay} {r : Reply} {said : List UInt8} {o : Outcome} {e : Endpoint}
    (h : Answered b behind path file blocks c said o e)
    (step : Exchange b behind path file blocks c r c') :
    r.said = said ∧ c' = ⟨moved c.packet r.heard, o, e⟩ ∧ r.heard.Sublist said := by
  obtain ⟨v, packet, hv, hpacket, hrun⟩ := h
  obtain ⟨⟨v', packet', hv', hpacket', hrun'⟩, sub, hmoved⟩ := step
  cases hv.symm.trans hv'
  cases hpacket.symm.trans hpacket'
  obtain ⟨packet₁, receiver₁, endpoint₁⟩ := c'
  cases hrun.symm.trans hrun'
  dsimp only at hmoved
  subst hmoved
  exact ⟨rfl, rfl, sub⟩

/-- An ACK is heard only where one is said. -/
theorem moved_of_nak {packet : Nat} {heard : List UInt8} (sub : heard.Sublist [nak]) :
    moved packet heard = packet := by
  refine if_neg fun hack => ?_
  have hmem := sub.subset hack
  simp [ack, nak] at hmem

/-- Behind an accepted packet the sender has heard the ACK or not. -/
theorem Taken.progress {k : Nat} {v : Locals} {e : Endpoint} (h : Taken b file blocks k v e.store)
    (heard : List UInt8) : Progress b file data blocks s ⟨moved k heard, .inl v, e⟩ := by
  by_cases hack : ack ∈ heard
  · rw [moved, if_pos hack]
    exact .heard h
  · rw [moved, if_neg hack]
    exact .unheard h

/-- Every packet leads on in a run. -/
theorem Progress.step (geometry : b.Geometry) (small : b.slot.size < 2 ^ 32 - 1)
    (fine : s.flash.Fine) (inactive : s.ctx.active = false) (fits : Fits path file)
    (storable : Storable b file) (cuts : Cuts file blocks) {c c' : Relay} {r : Reply}
    (p : Progress b file data blocks s c) (step : Exchange b behind path file blocks c r c') :
    Progress b file data blocks s c' := by
  cases p with
  | opening =>
    obtain ⟨v', s', hturn, taken⟩ :=
      first_turn behind blocks geometry small fine inactive fits storable data
    obtain ⟨_, rfl, _⟩ := Answered.unique ⟨_, _, rfl, packets_metadata, hturn⟩ step
    exact Taken.progress (e := ⟨s', []⟩) taken r.heard
  | @heard k v e taken =>
    by_cases more : k < blocks.length
    · obtain ⟨packet, v', s', hpacket, hturn, taken'⟩ :=
        taken.block_turn behind path geometry cuts more
      obtain ⟨_, rfl, _⟩ := Answered.unique ⟨_, _, rfl, hpacket, hturn⟩ step
      exact Taken.progress (e := { e with store := s' }) taken' r.heard
    · obtain rfl : k = blocks.length := Nat.le_antisymm taken.inside (Nat.not_lt.mp more)
      obtain ⟨hpacket, hturn, ended⟩ := taken.eot_turn behind path cuts
      obtain ⟨_, rfl, sub⟩ := Answered.unique ⟨_, _, rfl, hpacket, hturn⟩ step
      rw [moved_of_nak sub]
      exact .ended (j := 0) (by decide) ended
  | @unheard k v e taken =>
    obtain ⟨packet, data', hpacket, hturn⟩ :=
      taken.repeated_turn behind path cuts
    obtain ⟨_, rfl, sub⟩ := Answered.unique ⟨_, _, rfl, hpacket, hturn⟩ step
    rw [moved_of_nak sub]
    exact .unheard (taken.data data')
  | @ended j v e last ended =>
    obtain rfl | rfl : j = 0 ∨ j = 1 := by omega
    · have hturn := @eot_turn_again b behind v e [] ended.metadata ended.eot
      obtain ⟨_, rfl, _⟩ := Answered.unique ⟨_, _, rfl, packets_behind 0, hturn⟩ step
      by_cases hack : ack ∈ r.heard
      · rw [moved, if_pos hack]
        exact .ended (j := 1) (by decide) ended
      · rw [moved, if_neg hack]
        exact .ended (j := 0) (by decide) ended
    · obtain ⟨packet, v', s', hpacket, hturn, slot⟩ :=
        ended.finish_turn behind path geometry storable
      obtain ⟨_, rfl, _⟩ := Answered.unique ⟨_, _, rfl, hpacket, hturn⟩ step
      exact .returned slot
  | returned slot =>
    obtain ⟨⟨v, _, hv, _⟩, _⟩ := step
    cases hv

/-- The sender has not heard the ACK of a block exactly if it repeats the block accepted last. -/
theorem Progress.unheard_cases {c : Relay} (p : Progress b file data blocks s c) (h : c.Unheard) :
    ∃ k v e, c = ⟨k, .inl v, e⟩ ∧ Taken b file blocks k v e.store := by
  obtain ⟨w, hw, metadata, count⟩ := h
  cases p with
  | opening =>
    cases hw
    cases metadata
  | heard taken =>
    cases hw
    exact absurd (taken.count.symm.trans count) (by simp)
  | unheard taken => exact ⟨_, _, _, rfl, taken⟩
  | ended _ ended =>
    cases hw
    have hlen := congrArg List.length ended.accepted
    rw [List.length_map, List.length_map] at hlen
    dsimp only at count
    omega
  | returned => cases hw

/-- From one state of the run to another. -/
abbrev LeadsTo (b : Board) (behind path file : List UInt8) (blocks : Cutting) : Relay → Relay → Prop :=
  Reaches fun c c' => ∃ r, Exchange b behind path file blocks c r c'

/-- An answer that is heard whole. -/
theorem Answered.leads {c c' : Relay} {said : List UInt8} {o : Outcome} {e : Endpoint} {packet : Nat}
    (h : Answered b behind path file blocks c said o e) (hmoved : moved c.packet said = packet)
    (rest : LeadsTo b behind path file blocks ⟨packet, o, e⟩ c') :
    LeadsTo b behind path file blocks c c' := by
  subst hmoved
  exact .head ⟨_, h.exchange (List.Sublist.refl said)⟩ rest

variable (behind path) in
/-- The end of a transfer whose sender has heard of all blocks. -/
theorem Ended.continues (geometry : b.Geometry) (storable : Storable b file) {j : Nat} {v : Locals}
    {e : Endpoint} (last : j < 2) (h : Ended b file blocks v e.store) : ∃ c',
      LeadsTo b behind path file blocks ⟨blocks.length + 1 + j, .inl v, e⟩ c' ∧ c'.Done file := by
  have finish : ∃ c', LeadsTo b behind path file blocks ⟨blocks.length + 1 + 1, .inl v, e⟩ c' ∧
      c'.Done file := by
    obtain ⟨packet, v', s', hpacket, hturn, slot⟩ := h.finish_turn behind path geometry storable
    exact ⟨_, Answered.leads ⟨_, _, rfl, hpacket, hturn⟩ rfl (.refl _), ⟨v', rfl⟩, slot⟩
  obtain rfl | rfl : j = 0 ∨ j = 1 := by omega
  · obtain ⟨c', hrest, done⟩ := finish
    have hturn := @eot_turn_again b behind v e [] h.metadata h.eot
    exact ⟨c', Answered.leads ⟨_, _, rfl, packets_behind 0, hturn⟩ rfl hrest, done⟩
  · exact finish

variable (behind path) in
/-- A transfer whose sender has heard of every block so far. -/
theorem Taken.continues (geometry : b.Geometry) (storable : Storable b file)
    (cuts : Cuts file blocks) {k : Nat} {v : Locals} {e : Endpoint}
    (h : Taken b file blocks k v e.store) : ∃ c',
      LeadsTo b behind path file blocks ⟨k + 1, .inl v, e⟩ c' ∧ c'.Done file := by
  induction hleft : blocks.length - k generalizing k v e with
  | zero =>
    obtain rfl : k = blocks.length := Nat.le_antisymm h.inside (Nat.le_of_sub_eq_zero hleft)
    obtain ⟨hpacket, hturn, ended⟩ := h.eot_turn behind path cuts
    obtain ⟨c', hrest, done⟩ := ended.continues behind path geometry storable (j := 0) (by decide)
    exact ⟨c', Answered.leads ⟨_, _, rfl, hpacket, hturn⟩ rfl hrest, done⟩
  | succ left ih =>
    obtain ⟨packet, v', s', hpacket, hturn, taken⟩ :=
      h.block_turn behind path geometry cuts (by omega)
    obtain ⟨c', hrest, done⟩ := ih (e := { e with store := s' }) taken (by omega)
    exact ⟨c', Answered.leads ⟨_, _, rfl, hpacket, hturn⟩ rfl hrest, done⟩

/-- What losing answers does to a transfer, and what it does not. -/
structure Withstands (b : Board) (behind path file : List UInt8) (blocks : Cutting) (c : Relay) :
    Prop where
  /-- The bytes stored are those of the blocks accepted, each once: the beginning of the file. -/
  stored : ∀ v, c.receiver = .inl v → v.gotMetadata = true →
    v.accepted.map Block.payload = (blocks.take v.accepted.length).map Prod.snd ∧
      ∃ d, Gathered b d c.endpoint.store ∧
        d = (v.accepted.flatMap Block.payload).take file.length ∧ d <+: file
  /-- A copy of the block accepted last is answered with NAK and stored no second time. -/
  refused : c.Unheard → ∀ r c', Exchange b behind path file blocks c r c' →
    r.said = [nak] ∧ c'.endpoint = c.endpoint
  /-- The sender repeats it for ever. -/
  stays : c.Unheard → ∀ c', LeadsTo b behind path file blocks c c' →
    c'.Unheard ∧ c'.packet = c.packet ∧ c'.endpoint = c.endpoint
  /-- Otherwise the transfer can go on to its end. -/
  continues : ¬ c.Unheard → ∃ c', LeadsTo b behind path file blocks c c' ∧ c'.Done file

theorem bytes_eq {as : List Block} {taken : Cutting}
    (h : as.map Block.payload = taken.map Prod.snd) : as.flatMap Block.payload = taken.bytes := by
  rw [Cutting.bytes, List.flatMap_def, List.flatMap_def, h]

/-- What is stored is the beginning of the file. -/
theorem Taken.stored (cuts : Cuts file blocks) {k : Nat} {v : Locals} {s : Store}
    (h : Taken b file blocks k v s) :
    v.accepted.map Block.payload = (blocks.take v.accepted.length).map Prod.snd ∧
      ∃ d, Gathered b d s ∧ d = (v.accepted.flatMap Block.payload).take file.length ∧
        d <+: file := by
  rw [h.count]
  refine ⟨h.accepted, _, h.transfer.session.toGathered, by rw [bytes_eq h.accepted], ?_⟩
  have hpre : Cutting.bytes (blocks.take k) <+: blocks.bytes := by
    refine ⟨Cutting.bytes (blocks.drop k), ?_⟩
    rw [Cutting.bytes, Cutting.bytes, ← List.flatMap_append, List.take_append_drop]
    rfl
  have htake := hpre.take file.length
  rwa [cuts.bytes] at htake

/-- A sender that has not heard the ACK of a block stays at it. -/
theorem Taken.stays (cuts : Cuts file blocks) {k : Nat} {v : Locals} {e : Endpoint}
    (h : Taken b file blocks k v e.store) {c' : Relay}
    (run : LeadsTo b behind path file blocks ⟨k, .inl v, e⟩ c') :
    c'.Unheard ∧ c'.packet = k ∧ c'.endpoint = e := by
  obtain ⟨n, run⟩ := run
  induction n generalizing v with
  | zero =>
    cases run
    exact ⟨⟨v, rfl, h.transfer.metadata, h.count⟩, rfl, rfl⟩
  | succ n ih =>
    cases run with
    | succ step rest =>
      obtain ⟨r, step⟩ := step
      obtain ⟨packet, data', hpacket, hturn⟩ := h.repeated_turn behind path cuts
      obtain ⟨_, rfl, sub⟩ := Answered.unique ⟨_, _, rfl, hpacket, hturn⟩ step
      rw [moved_of_nak sub] at rest
      exact ih (h.data data') rest

/-- In every run in which a sender repeats each packet until it hears an ACK, and hears of the
answers what is left of them: the bytes stored are those of the blocks accepted, each once. The copy of
a block whose ACK was lost is refused, for ever, and is not stored again. As long as no such ACK was
lost the transfer can go on to its end. -/
theorem lossy_replies (geometry : b.Geometry) (small : b.slot.size < 2 ^ 32 - 1)
    (fine : s.flash.Fine) (inactive : s.ctx.active = false) (fits : Fits path file)
    (storable : Storable b file) (cuts : Cuts file blocks) (c : Relay)
    (h : Reachable (· = Relay.start data s) (Exchange b behind path file blocks) c) :
    Withstands b behind path file blocks c := by
  have p : Progress b file data blocks s c := by
    refine h.invariant (fun c hc => ?_) fun c r c' p step =>
      p.step geometry small fine inactive fits storable cuts step
    subst hc
    exact .opening
  refine ⟨fun v hv metadata => ?_, fun unheard r c' step => ?_, fun unheard c' run => ?_,
    fun heard => ?_⟩
  · cases p with
    | opening =>
      cases hv
      cases metadata
    | heard taken =>
      cases hv
      exact taken.stored cuts
    | unheard taken =>
      cases hv
      exact taken.stored cuts
    | ended _ ended =>
      cases hv
      have hlen := congrArg List.length ended.accepted
      rw [List.length_map, List.length_map] at hlen
      rw [hlen, List.take_length]
      refine ⟨ended.accepted, file, ended.session.toGathered, ?_, List.prefix_refl file⟩
      rw [bytes_eq ended.accepted, cuts.bytes]
    | returned => cases hv
  · obtain ⟨k, v, e, rfl, taken⟩ := p.unheard_cases unheard
    obtain ⟨packet, data', hpacket, hturn⟩ := taken.repeated_turn behind path cuts
    obtain ⟨hsaid, rfl, _⟩ := Answered.unique ⟨_, _, rfl, hpacket, hturn⟩ step
    exact ⟨hsaid, rfl⟩
  · obtain ⟨k, v, e, rfl, taken⟩ := p.unheard_cases unheard
    exact taken.stays cuts run
  · cases p with
    | opening =>
      obtain ⟨v', s', hturn, taken⟩ :=
        first_turn behind blocks geometry small fine inactive fits storable data
      obtain ⟨c', hrest, done⟩ :=
        Taken.continues behind path geometry storable cuts (e := ⟨s', []⟩) taken
      exact ⟨c', Answered.leads ⟨_, _, rfl, packets_metadata, hturn⟩ rfl hrest, done⟩
    | heard taken => exact taken.continues behind path geometry storable cuts
    | unheard taken => exact absurd ⟨_, rfl, taken.transfer.metadata, taken.count⟩ heard
    | ended last ended => exact ended.continues behind path geometry storable last
    | returned slot => exact ⟨_, .refl _, ⟨_, rfl⟩, slot⟩

end Runs

/-- The small file in one block. -/
def smallCutting : Cutting := [(stx, (dataBlock Host.smallFile 0).2)]

set_option maxRecDepth 100000 in
theorem small_cuts : Cuts Host.smallFile smallCutting :=
  ⟨by decide +kernel, by decide +kernel⟩

/-- The small file is sent, and the ACK of the metadata is lost. -/
theorem small_unheard : ∃ v s', Reachable (· = Relay.start [] Host.smallStore)
    (Exchange Host.smallBoard [] [0x61] Host.smallFile smallCutting) ⟨0, .inl v, ⟨s', []⟩⟩ ∧
      Taken Host.smallBoard Host.smallFile smallCutting 0 v s' := by
  obtain ⟨v, s', hturn, taken⟩ := first_turn (s := Host.smallStore) [] smallCutting
    Host.smallBoard_geometry (by decide) (fun _ => rfl) rfl small_fits small_storable []
  have answered : Answered Host.smallBoard [] [0x61] Host.smallFile smallCutting
      (.start [] Host.smallStore) [ack, crcRequest] (.inl v) ⟨s', []⟩ :=
    ⟨_, _, rfl, packets_metadata, hturn⟩
  exact ⟨v, s', .step (.start rfl) (answered.exchange (List.nil_sublist _)), taken⟩

/-- It stays at the metadata. -/
theorem small_withstands : ∃ c : Relay, c.Unheard ∧
    Withstands Host.smallBoard [] [0x61] Host.smallFile smallCutting c := by
  obtain ⟨v, s', reachable, taken⟩ := small_unheard
  exact ⟨_, ⟨v, rfl, taken.transfer.metadata, taken.count⟩,
    lossy_replies Host.smallBoard_geometry (by decide) (fun _ => rfl) rfl small_fits small_storable
      small_cuts _ reachable⟩

/-- Not every copy of the block accepted last is acknowledged. -/
theorem repeated_block_not_acknowledged :
    ¬ ∀ (b : Board) (behind path file data : List UInt8) (blocks : Cutting) (s : Store),
      b.Geometry → b.slot.size < 2 ^ 32 - 1 → s.flash.Fine → s.ctx.active = false →
      Fits path file → Storable b file → Cuts file blocks →
      ∀ c, Reachable (· = Relay.start data s) (Exchange b behind path file blocks) c → c.Unheard →
        ∀ r c', Exchange b behind path file blocks c r c' → ack ∈ r.said := by
  intro always
  obtain ⟨v, s', reachable, taken⟩ := small_unheard
  obtain ⟨packet, data', hpacket, hturn⟩ :=
    taken.repeated_turn (e := ⟨s', []⟩) [] [0x61] small_cuts
  have answered : Answered Host.smallBoard [] [0x61] Host.smallFile smallCutting
      ⟨0, .inl v, ⟨s', []⟩⟩ [nak] (.inl { v with data := data' }) ⟨s', []⟩ :=
    ⟨v, packet, rfl, hpacket, hturn⟩
  have hack := always Host.smallBoard [] [0x61] Host.smallFile [] smallCutting Host.smallStore
    Host.smallBoard_geometry (by decide) (fun _ => rfl) rfl small_fits small_storable small_cuts _
    reachable ⟨v, rfl, taken.transfer.metadata, taken.count⟩ _ _
    (answered.exchange (List.Sublist.refl _))
  simp [ack, nak] at hack

end Rtbus.Ymodem
