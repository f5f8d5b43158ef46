import Rtbus.Host.Storing
import Rtbus.Ymodem.Receiver

/-!
# The receiver on arbitrary input

Whatever arrives on the line and whatever the flash does, `rtbus_ymodem_recv` returns: each turn of
its loop takes a byte from the line or is the last one. Before the metadata no session of the image
store is open. From then on one is open, and it holds the payloads of the blocks that were
acknowledged, up to the size of the file. Every way out of the function closes it.
-/

namespace Rtbus.Ymodem

open Rtbus.Image Prog

/-- The segments lie in a stream one behind the other. -/
inductive Arrived : List (List UInt8) → List UInt8 → Prop
  | nil (stream : List UInt8) : Arrived [] stream
  | skip {segments : List (List UInt8)} {stream : List UInt8} (lost : List UInt8) :
      Arrived segments stream → Arrived segments (lost ++ stream)
  | take {segments : List (List UInt8)} {stream : List UInt8} (segment : List UInt8) :
      Arrived segments stream → Arrived (segment :: segments) (segment ++ stream)

/-- More may follow, with more segments. -/
theorem Arrived.append {segments segments' : List (List UInt8)} {stream stream' : List UInt8}
    (h : Arrived segments stream) (h' : Arrived segments' stream') :
    Arrived (segments ++ segments') (stream ++ stream') := by
  induction h with
  | nil stream => exact h'.skip stream
  | skip lost _ ih =>
    rw [List.append_assoc]
    exact ih.skip lost
  | take segment _ ih =>
    rw [List.append_assoc]
    exact ih.take segment

/-- What the session holds: the payloads that were acknowledged, up to the size of the file. -/
def Locals.stored (v : Locals) : List UInt8 :=
  (v.accepted.flatMap Block.payload).take v.expectedSize

/-- The blocks that were acknowledged are valid packets with the numbers 1, 2, 3 and so on, modulo
256. -/
def Locals.Numbered (v : Locals) : Prop :=
  ∀ i block, v.accepted[i]? = some block →
    ymodemReadPacket block.header block.bytes = .ok (UInt8.ofNat (i + 1), block.payload)

/-- No metadata was received yet. -/
structure Waiting (v : Locals) (s : Store) : Prop where
  noMetadata : v.gotMetadata = false
  noStore : v.storeActive = false
  inactive : s.ctx.active = false
  received : v.receivedSize = 0
  block : v.expectedBlock = 1
  accepted : v.accepted = []

/-- The file is being stored. -/
structure Storing (b : Board) (v : Locals) (s : Store) : Prop where
  metadata : v.gotMetadata = true
  store : v.storeActive = true
  session : Session b v.expectedSize v.stored s
  received : v.receivedSize = v.stored.length
  block : v.expectedBlock = UInt8.ofNat (v.accepted.length + 1)
  numbered : v.Numbered

/-- The state before a turn, when `stream` was to be read at the start. -/
structure Inv (b : Board) (stream : List UInt8) (v : Locals) (d : Device) : Prop where
  phase : Waiting v d.store ∨ Storing b v d.store
  arrived : ∃ before, stream = before ++ d.line.stream ∧ Arrived (v.accepted.map Block.wire) before

/-- What holds when the function returns. -/
structure Returned (b : Board) (stream : List UInt8) (out : Ret × Locals) (d : Device) : Prop where
  closed : d.store.ctx.active = false
  content : out.1 = .ok → AcceptsFile b out.2.stored ∧ out.2.stored.length = out.2.expectedSize ∧
    d.store.flash.slot.slice 0 out.2.expectedSize = out.2.stored ∧ out.2.Numbered ∧
      Arrived (out.2.accepted.map Block.wire) stream

/-- What a turn leaves: it goes on with fewer bytes to be read, or the function returns. -/
def TurnPost (b : Board) (stream : List UInt8) (left : Nat) : Outcome → Device → Prop :=
  Sum.elim (fun v d => Inv b stream v d ∧ d.line.stream.length < left) (Returned b stream)

/-- A failure needs no more than that the store is closed. -/
theorem Returned.error {b : Board} {stream : List UInt8} {e : Errno} {v : Locals} {d : Device}
    (closed : d.store.ctx.active = false) : Returned b stream (.err e, v) d :=
  ⟨closed, fun h => by cases h⟩

section Operations

variable {b : Board} {d : Device}

/-- Sending a byte goes to the line. -/
@[simp] theorem wp_put (byte : UInt8) (Q : Unit → Device → Prop) :
    wp (Device.serve b).handler (put byte) Q d ↔ Q () { d with line := d.line.put byte } :=
  wp_perform_server (I := surroundings) (Device.serve b) (.put byte) rfl Q

/-- Flushing takes what has arrived from the line. -/
@[simp] theorem wp_flushRx (Q : Unit → Device → Prop) :
    wp (Device.serve b).handler flushRx Q d ↔ Q () { d with line := d.line.flushRx } :=
  wp_perform_server (I := surroundings) (Device.serve b) .flushRx rfl Q

/-- Opening the port returns what the device gives. -/
@[simp] theorem wp_serialBegin (Q : Ret → Device → Prop) :
    wp (Device.serve b).handler serialBegin Q d ↔ Q d.opened d :=
  wp_perform_server (I := surroundings) (Device.serve b) .serialBegin rfl Q

/-- Waiting for a header is that of the line. -/
@[simp] theorem wp_waitHeader (Q : Except Errno UInt8 → Device → Prop) :
    wp (Device.serve b).handler waitHeader Q d ↔
      Q (ymodemWaitHeader d.line).2 { d with line := (ymodemWaitHeader d.line).1 } :=
  wp_perform_server (I := surroundings) (Device.serve b) .waitHeader rfl Q

/-- So is reading a byte. -/
@[simp] theorem wp_readByte (timeoutMs : Nat) (Q : Except Errno UInt8 → Device → Prop) :
    wp (Device.serve b).handler (readByte timeoutMs) Q d ↔
      Q (ymodemReadByte timeoutMs d.line).2 { d with line := (ymodemReadByte timeoutMs d.line).1 } :=
  wp_perform_server (I := surroundings) (Device.serve b) (.readByte timeoutMs) rfl Q

/-- So is reading many. -/
@[simp] theorem wp_readExact (len timeoutMs : Nat) (Q : Except Errno (List UInt8) → Device → Prop) :
    wp (Device.serve b).handler (readExact len timeoutMs) Q d ↔
      Q (ymodemReadExact len timeoutMs d.line).2
        { d with line := (ymodemReadExact len timeoutMs d.line).1 } :=
  wp_perform_server (I := surroundings) (Device.serve b) (.readExact len timeoutMs) rfl Q

/-- Opening a session is that of the store. -/
@[simp] theorem wp_storeBegin (imageSize : Nat) (Q : Ret → Device → Prop) :
    wp (Device.serve b).handler (storeBegin imageSize) Q d ↔
      Q (imageStoreBegin b imageSize d.store).2
        { d with store := (imageStoreBegin b imageSize d.store).1 } :=
  wp_perform_server (I := surroundings) (Device.serve b) (.storeBegin imageSize) rfl Q

/-- So is writing to it. -/
@[simp] theorem wp_storeWrite (offset : Nat) (data : List UInt8) (Q : Ret → Device → Prop) :
    wp (Device.serve b).handler (storeWrite offset data) Q d ↔
      Q (imageStoreWrite b offset data d.store).2
        { d with store := (imageStoreWrite b offset data d.store).1 } :=
  wp_perform_server (I := surroundings) (Device.serve b) (.storeWrite offset data) rfl Q

/-- So is closing it. -/
@[simp] theorem wp_storeFinish (status : Ret) (Q : Ret → Device → Prop) :
    wp (Device.serve b).handler (storeFinish status) Q d ↔
      Q (imageStoreFinish b status d.store).2
        { d with store := (imageStoreFinish b status d.store).1 } :=
  wp_perform_server (I := surroundings) (Device.serve b) (.storeFinish status) rfl Q

/-- Every operation is answered. -/
theorem serve_answered (o : Op) : (Device.serve b o d).isSome = true := by
  cases o <;> rfl

end Operations

variable {b : Board} {stream : List UInt8} {left : Nat} {v : Locals} {d : Device}

/-- Giving up closes the session, whatever has been received. -/
theorem recvAbort_spec (phase : Waiting v d.store ∨ Storing b v d.store) (e : Errno) :
    wp (Device.serve b).handler (recvAbort e v) (TurnPost b stream left) d := by
  unfold recvAbort
  rcases phase with waiting | storing
  · rw [waiting.noStore, if_neg Bool.false_ne_true]
    exact Returned.error waiting.inactive
  · rw [if_pos storing.store, wp_bind, wp_storeFinish]
    exact Returned.error (imageStoreFinish_closes b (.err e) d.store)

/-- The end of the file is announced. -/
theorem recvEot_spec (inv : Inv b stream v d) (less : d.line.stream.length < left) :
    wp (Device.serve b).handler (recvEot v) (TurnPost b stream left) d := by
  unfold recvEot
  split
  · rw [wp_bind, wp_put, wp_bind, wp_put]
    refine ⟨⟨?_, inv.arrived⟩, less⟩
    rcases inv.phase with waiting | storing
    · exact .inl ⟨waiting.noMetadata, waiting.noStore, waiting.inactive, waiting.received,
        waiting.block, waiting.accepted⟩
    · exact .inr ⟨storing.metadata, storing.store, storing.session, storing.received,
        storing.block, storing.numbered⟩
  · rw [wp_bind, wp_put]
    refine ⟨⟨?_, inv.arrived⟩, less⟩
    rcases inv.phase with waiting | storing
    · exact .inl ⟨waiting.noMetadata, waiting.noStore, waiting.inactive, waiting.received,
        waiting.block, waiting.accepted⟩
    · exact .inr ⟨storing.metadata, storing.store, storing.session, storing.received,
        storing.block, storing.numbered⟩

/-- A packet before the metadata starts a session, or does nothing, or ends the function. -/
theorem recvMetadata_spec (behind : List UInt8) (number : UInt8) (len : Nat) (waiting : Waiting v d.store)
    (arrived : ∃ before, stream = before ++ d.line.stream ∧
      Arrived (v.accepted.map Block.wire) before) (less : d.line.stream.length < left) :
    wp (Device.serve b).handler (recvMetadata behind number len v) (TurnPost b stream left) d := by
  unfold recvMetadata
  split
  · rw [wp_bind, wp_put]
    exact ⟨⟨.inl ⟨waiting.noMetadata, waiting.noStore, waiting.inactive, waiting.received,
      waiting.block, waiting.accepted⟩, arrived⟩, less⟩
  · dsimp only
    generalize ymodemParseFileSize (v.data ++ behind) len = size
    split
    · rw [wp_bind, wp_put]
      exact Returned.error waiting.inactive
    · rw [wp_bind, wp_put, wp_bind, wp_put, wp_bind, wp_storeBegin]
      dsimp only
      obtain ⟨s', ret, hbegin, _, hok, herr, _⟩ := imageStoreBegin_spec (b := b) size waiting.inactive
      rw [hbegin]
      cases ret with
      | err e =>
        dsimp only
        rw [wp_bind, wp_put]
        exact Returned.error (herr (by simp))
      | ok =>
        have hstored : ({ v with gotMetadata := true, expectedSize := size, storeActive := true } :
            Locals).stored = [] := by
          unfold Locals.stored
          rw [waiting.accepted]
          exact List.take_nil
        refine ⟨⟨.inr ⟨rfl, rfl, ?_, ?_, ?_, ?_⟩, arrived⟩, less⟩
        · rw [hstored]
          exact hok rfl
        · rw [hstored]
          exact waiting.received
        · show v.expectedBlock = _
          rw [waiting.block, waiting.accepted]
          rfl
        · intro i block h
          change v.accepted[i]? = some block at h
          rw [waiting.accepted] at h
          cases h

/-- The end of a session. -/
theorem recvFinish_spec (storing : Storing b v d.store) (arrived : ∃ before,
    stream = before ++ d.line.stream ∧ Arrived (v.accepted.map Block.wire) before) :
    wp (Device.serve b).handler (recvFinish v) (TurnPost b stream left) d := by
  obtain ⟨s', ret, hfinish, hclosed, _, hok, _⟩ := imageStoreFinish_spec storing.session .ok
  have closed : s'.ctx.active = false := by
    rw [hclosed]
    rfl
  unfold recvFinish
  rw [wp_bind, wp_storeFinish, hfinish]
  cases ret with
  | err e =>
    dsimp only
    rw [wp_bind, wp_put]
    exact Returned.error closed
  | ok =>
    dsimp only
    rw [wp_bind, wp_put]
    obtain ⟨_, hlen, haccepts, hslot, _⟩ := hok rfl
    obtain ⟨before, rfl, harrived⟩ := arrived
    have hall := harrived.append (.nil d.line.stream)
    rw [List.append_nil] at hall
    exact ⟨closed, fun _ => ⟨haccepts, hlen, hslot, storing.numbered, hall⟩⟩

/-- One more payload, as far as the file goes. -/
theorem take_append_min (l payload : List UInt8) (size : Nat) :
    (l ++ payload).take size =
      l.take size ++ payload.take (min payload.length (size - (l.take size).length)) := by
  rw [List.take_append, List.length_take]
  congr 1
  rcases Nat.le_total l.length size with h | h
  · rw [Nat.min_eq_right h, Nat.min_comm payload.length, ← List.take_eq_take_min]
  · rw [Nat.min_eq_left h, Nat.sub_self, Nat.min_zero, Nat.sub_eq_zero_of_le h]

/-- A data block is stored and acknowledged, or refused, or ends the function. -/
theorem recvBlock_spec (number : UInt8) (block : Block) (storing : Storing b v d.store)
    (read : ymodemReadPacket block.header block.bytes = .ok (number, block.payload))
    (arrived : ∃ before, stream = before ++ (block.wire ++ d.line.stream) ∧
      Arrived (v.accepted.map Block.wire) before) (less : d.line.stream.length < left) :
    wp (Device.serve b).handler (recvBlock number block v) (TurnPost b stream left) d := by
  obtain ⟨before, rfl, harrived⟩ := arrived
  unfold recvBlock
  split
  · rw [wp_bind, wp_put]
    have hskip := harrived.append (.nil block.wire)
    rw [List.append_nil] at hskip
    exact ⟨⟨.inr storing, before ++ block.wire, (List.append_assoc ..).symm, hskip⟩, less⟩
  · rename_i hnumber
    have hnumber : number = v.expectedBlock := not_not.mp hnumber
    dsimp only
    rw [wp_bind, wp_storeWrite]
    obtain ⟨s', ret, hwrite, _, _, hok, _⟩ := imageStoreWrite_spec v.receivedSize
      (block.payload.take (min block.payload.length (v.expectedSize - v.receivedSize)))
      storing.session
    rw [hwrite]
    cases ret with
    | err e =>
      dsimp only
      rw [wp_bind, wp_storeFinish, wp_bind, wp_put]
      exact Returned.error (imageStoreFinish_closes b (.err e) s')
    | ok =>
      dsimp only
      rw [wp_bind, wp_put]
      have hstored : ({ v with
          receivedSize := v.receivedSize +
            min block.payload.length (v.expectedSize - v.receivedSize)
          expectedBlock := v.expectedBlock + 1
          accepted := v.accepted ++ [block] } : Locals).stored =
          v.stored ++ block.payload.take
            (min block.payload.length (v.expectedSize - v.receivedSize)) := by
        rw [storing.received]
        unfold Locals.stored
        dsimp only
        rw [List.flatMap_append, List.flatMap_singleton, take_append_min]
      have hall := harrived.append (.take block.wire (.nil []))
      rw [List.append_nil] at hall
      refine ⟨⟨.inr ⟨storing.metadata, storing.store, ?_, ?_, ?_, ?_⟩,
        before ++ block.wire, (List.append_assoc ..).symm, ?_⟩, less⟩
      · rw [hstored]
        exact (hok rfl).2
      · rw [hstored, List.length_append, ← storing.received, List.length_take]
        show v.receivedSize + _ = v.receivedSize + _
        omega
      · show v.expectedBlock + 1 = UInt8.ofNat ((v.accepted ++ [block]).length + 1)
        rw [storing.block, List.length_append, UInt8.ofNat_add (v.accepted.length + [block].length)]
        rfl
      · intro i block' h
        rcases Nat.lt_trichotomy i v.accepted.length with hi | rfl | hi
        · rw [List.getElem?_append_left hi] at h
          exact storing.numbered i block' h
        · rw [List.getElem?_concat_length] at h
          cases h
          rw [read, hnumber, storing.block]
        · rw [List.getElem?_eq_none (by rw [List.length_append, List.length_singleton]; omega)] at h
          cases h
      · rw [List.map_append]
        exact hall

/-- A packet that was read. -/
theorem recvPacket_spec (behind : List UInt8) (number : UInt8) (block : Block)
    (phase : Waiting v d.store ∨ Storing b v d.store)
    (read : ymodemReadPacket block.header block.bytes = .ok (number, block.payload))
    (arrived : ∃ before, stream = before ++ (block.wire ++ d.line.stream) ∧
      Arrived (v.accepted.map Block.wire) before) (less : d.line.stream.length < left) :
    wp (Device.serve b).handler (recvPacket behind number block v) (TurnPost b stream left) d := by
  have passed : ∃ before, stream = before ++ d.line.stream ∧
      Arrived (v.accepted.map Block.wire) before := by
    obtain ⟨before, rfl, harrived⟩ := arrived
    have hskip := harrived.append (.nil block.wire)
    rw [List.append_nil] at hskip
    exact ⟨before ++ block.wire, (List.append_assoc ..).symm, hskip⟩
  unfold recvPacket
  dsimp only
  rcases phase with waiting | storing
  · rw [if_pos waiting.noMetadata]
    exact recvMetadata_spec behind number block.payload.length ⟨waiting.noMetadata,
      waiting.noStore, waiting.inactive, waiting.received, waiting.block, waiting.accepted⟩
      passed less
  · rw [if_neg (by rw [storing.metadata]; simp)]
    have storing' : Storing b { v with data := receiveInto v.data block.payload } d.store :=
      ⟨storing.metadata, storing.store, storing.session, storing.received, storing.block,
        storing.numbered⟩
    split
    · exact recvFinish_spec storing' passed
    · exact recvBlock_spec number block storing' read arrived less

/-- A header that was read, with what follows it. -/
theorem recvHeader_spec (behind : List UInt8) (header : UInt8) (phase : Waiting v d.store ∨ Storing b v d.store)
    (arrived : ∃ before, stream = before ++ header :: d.line.stream ∧
      Arrived (v.accepted.map Block.wire) before) (less : d.line.stream.length < left) :
    wp (Device.serve b).handler (recvHeader behind header v) (TurnPost b stream left) d := by
  -- what was taken from the line, header or more, without a block in it
  have passed : ∀ lost rest, d.line.stream = lost ++ rest → ∃ before, stream = before ++ rest ∧
      Arrived (v.accepted.map Block.wire) before := by
    rintro lost rest hrest
    obtain ⟨before, rfl, harrived⟩ := arrived
    have hskip := harrived.append (.nil (header :: lost))
    rw [List.append_nil] at hskip
    exact ⟨before ++ header :: lost, by rw [hrest, List.append_assoc]; rfl, hskip⟩
  unfold recvHeader
  split
  · exact recvAbort_spec phase _
  · split
    · exact recvEot_spec ⟨phase, passed [] _ rfl⟩ less
    · rw [wp_bind]
      unfold readPacket
      cases hlen : payloadLen header with
      | none =>
        dsimp only
        rw [wp_pure, wp_bind, wp_put]
        exact ⟨⟨phase, passed [] _ rfl⟩, less⟩
      | some len =>
        dsimp only
        rw [wp_bind, wp_readExact]
        obtain ⟨l', r, hread, _, hok, herr⟩ :=
          ymodemReadExact_spec (len + packetOverhead) byteTimeoutMs d.line
        rw [hread]
        cases r with
        | error e =>
          dsimp only
          rw [wp_pure, wp_bind, wp_put]
          obtain ⟨lost, hlost⟩ := herr e rfl
          refine ⟨⟨phase, passed lost _ hlost⟩, ?_⟩
          rw [hlost, List.length_append] at less
          show l'.stream.length < left
          omega
        | ok packet =>
          dsimp only
          obtain ⟨hpacket, hstream⟩ := hok packet rfl
          have less' : l'.stream.length < left := by
            rw [hstream, List.length_append] at less
            omega
          rw [wp_pure]
          cases hcheck : checkPacket len packet with
          | error e =>
            show wp _ (put nak >>= fun _ => Pure.pure (Sum.inl v)) _ _
            rw [wp_bind, wp_put]
            exact ⟨⟨phase, passed packet _ hstream⟩, less'⟩
          | ok read =>
            refine recvPacket_spec behind read.1 ⟨header, packet, read.2⟩
              (d := { d with line := l' }) phase ?_ ?_ less'
            · show ymodemReadPacket header packet = .ok (read.1, read.2)
              unfold ymodemReadPacket
              rw [hlen]
              dsimp only
              rw [if_neg (by omega), ← hpacket, List.take_length, hcheck]
            · obtain ⟨before, hbefore, harrived⟩ := arrived
              exact ⟨before, by rw [hbefore, hstream]; rfl, harrived⟩

/-- A turn takes a byte from the line and keeps the invariant, or the function returns. -/
theorem turn_spec (behind : List UInt8) (inv : Inv b stream v d) :
    wp (Device.serve b).handler (turn behind v) (TurnPost b stream d.line.stream.length) d := by
  obtain ⟨phase, before, hbefore, harrived⟩ := inv
  -- the header comes from one of two readers, which behave alike
  have header : ∀ l' byte, d.line.stream = byte :: l'.stream →
      wp (Device.serve b).handler (recvHeader behind byte v)
        (TurnPost b stream d.line.stream.length) { d with line := l' } := by
    intro l' byte hbyte
    refine recvHeader_spec behind byte phase ⟨before, by rw [hbefore, hbyte], harrived⟩ ?_
    rw [hbyte]
    exact Nat.lt_succ_self _
  unfold turn readHeader
  rw [wp_bind]
  split
  · obtain ⟨l', r, hread, _, hok, _⟩ := ymodemReadByte_spec byteTimeoutMs d.line
    rw [wp_readByte, hread]
    cases r with
    | error e => exact recvAbort_spec (d := { d with line := l' }) phase e
    | ok byte => exact header l' byte (hok byte rfl)
  · obtain ⟨l', r, hread, hok, _⟩ := ymodemWaitHeader_spec d.line
    rw [wp_waitHeader, hread]
    cases r with
    | error e => exact recvAbort_spec (d := { d with line := l' }) phase e
    | ok byte => exact header l' byte (hok byte rfl)

/-- `rtbus_ymodem_recv` returns, after no more turns than there are bytes on the line, whatever
arrives and when, and whatever the flash does; the session of the image store is closed then. If it
returns 0, the slot begins with the payloads of the blocks that it has acknowledged, valid packets
with the numbers from 1 on that came one behind the other, up to the size of the file, and these
bytes have passed the checks of the image store. -/
theorem recv_safe (b : Board) (behind data : List UInt8) (d : Device)
    (inactive : d.store.ctx.active = false) : ∃ ret v d',
      (∀ fuel, d.line.stream.length < fuel →
        ymodemRecv b behind data fuel d = some ((ret, v), d')) ∧
      d'.store.ctx.active = false ∧
      (ret = .ok → AcceptsFile b v.stored ∧ v.stored.length = v.expectedSize ∧
        d'.store.flash.slot.slice 0 v.expectedSize = v.stored ∧ v.Numbered ∧
          Arrived (v.accepted.map Block.wire) d.line.stream) := by
  have start : wp (Device.serve b).handler (recvStart data)
      (Sum.elim (fun v d' => v = .init data ∧ d'.store = d.store ∧
        ∃ lost, d.line.stream = lost ++ d'.line.stream) (Returned b d.line.stream)) d := by
    unfold recvStart
    rw [wp_bind, wp_serialBegin]
    cases d.opened with
    | err e => exact Returned.error inactive
    | ok =>
      dsimp only
      rw [wp_bind, wp_flushRx]
      exact ⟨rfl, rfl, d.line.stream_flushRx⟩
  obtain ⟨out, d₁, hstart, post⟩ := exists_run (fun o d => serve_answered o) start
  unfold ymodemRecv
  rw [hstart]
  cases out with
  | inr out => exact ⟨out.1, out.2, d₁, fun _ _ => rfl, post.closed, post.content⟩
  | inl v =>
    obtain ⟨rfl, hstore, lost, hlost⟩ := post
    have inv : Inv b d.line.stream (.init data) d₁ :=
      ⟨.inl ⟨rfl, rfl, by rw [hstore]; exact inactive, rfl, rfl, rfl⟩, lost, hlost, .nil lost⟩
    obtain ⟨out, d', hrun, returned⟩ := repeatFor_total (fun o d => serve_answered o)
      (fun (_ : Locals) (d : Device) => d.line.stream.length) (fun v d inv => turn_spec behind inv) inv
    refine ⟨out.1, out.2, d', fun fuel h => hrun fuel ?_, returned.closed, returned.content⟩
    rw [hlost, List.length_append] at h
    show d₁.line.stream.length < fuel
    omega

/-- A small file in two blocks of 128 bytes. -/
def smallTransfer : List UInt8 :=
  sendPacket soh 0 (metadataBlock [0x61] Host.smallFile.length) ++
    sendPacket soh 1 (Host.smallFile.take 128) ++
      sendPacket soh 2 (Host.smallFile.drop 128 ++ List.replicate 125 0x1a) ++ [eot, eot] ++
        sendPacket soh 0 (List.replicate 128 0)

/-- A device to which it is sent. -/
def smallDevice : Device :=
  { line := { now := 0, ready := [], coming := [⟨0, []⟩, ⟨5, smallTransfer⟩], sent := [] }
    store := Host.smallStore, opened := .ok }

set_option maxRecDepth 100000 in
/-- The file is received. -/
theorem small_received : ∃ v d',
    ymodemRecv Host.smallBoard [] (List.replicate 1024 0) 600 smallDevice = some ((.ok, v), d') ∧
      d'.store.ctx.active = false ∧ d'.store.flash.slot.slice 0 v.expectedSize = v.stored := by
  obtain ⟨ret, v, d', hrun, closed, hok⟩ :=
    recv_safe Host.smallBoard [] (List.replicate 1024 0) smallDevice rfl
  have hrun := hrun 600 (by decide +kernel)
  have hret : (ymodemRecv Host.smallBoard [] (List.replicate 1024 0) 600 smallDevice).map
      (fun r => r.1.1) = some .ok := by
    decide +kernel
  rw [hrun] at hret
  obtain rfl : ret = .ok := Option.some.inj hret
  exact ⟨v, d', hrun, closed, (hok rfl).2.2.1⟩

end Rtbus.Ymodem
