import Rtbus.Ymodem.Safety
import Rtbus.Ymodem.Uploader

/-!
# The uploader and the receiver agree

The receiver at a link that delivers every byte in order, with as much time as it needs: its reads
wait until their bytes have come. Before it looks for the first header it asks for a packet any
number of times. The uploader and the receiver are two parties over two channels (`linked`), and
neither minds what else is waiting for it, so every run comes to the same end. The run that is
followed here takes the transfer block by block.
-/

namespace Rtbus.Ymodem

open Rtbus.Image Network Decimal

/-- The receiver's side of the link: the image store, and how many times each of the coming calls
of `ymodem_wait_header` asks for a packet before it reads one. -/
structure Endpoint where
  store : Store
  asks : List Nat

namespace Endpoint

/-- `ymodem_wait_header` asks for a packet. -/
def pause : Op → Endpoint → Option (Endpoint × List UInt8)
  | .waitHeader, ⟨store, (n + 1) :: asks⟩ => some (⟨store, n :: asks⟩, [crcRequest])
  | _, _ => none

/-- The endpoint with something done in the store. -/
def onStore (e : Endpoint) (i : List UInt8) (r : Store × Ret) :
    Option (Ret × Endpoint × List UInt8 × List UInt8) := some (r.2, { e with store := r.1 }, i, [])

/-- The next byte. -/
def readFirst (e : Endpoint) :
    List UInt8 → Option (Except Errno UInt8 × Endpoint × List UInt8 × List UInt8)
  | [] => none
  | byte :: i => some (.ok byte, e, i, [])

/-- What the operations do at the link. The first two are over before the loop. -/
def act (b : Board) : (o : Op) → Endpoint → List UInt8 →
    Option (o.Answer × Endpoint × List UInt8 × List UInt8)
  | .serialBegin, _, _ => none
  | .flushRx, _, _ => none
  | .waitHeader, e, i => { e with asks := e.asks.tail }.readFirst i
  | .readByte _, e, i => e.readFirst i
  | .readExact len _, e, i => if i.length < len then none else some (.ok (i.take len), e, i.drop len, [])
  | .put byte, e, i => some ((), e, i, [byte])
  | .storeBegin imageSize, e, i => e.onStore i (imageStoreBegin b imageSize e.store)
  | .storeWrite offset data, e, i => e.onStore i (imageStoreWrite b offset data e.store)
  | .storeFinish status, e, i => e.onStore i (imageStoreFinish b status e.store)

end Endpoint

/-- The loop of `rtbus_ymodem_recv` at the link. -/
def receiver (b : Board) (behind : List UInt8) :
    Agent surroundings Locals (Ret × Locals) Endpoint UInt8 UInt8 where
  pause := Endpoint.pause
  act := Endpoint.act b
  body := turn behind

/-- The uploader, the receiver, and what is on its way between them. -/
abbrev Link := Config (Send SendOutcome × Unit) (Recv Outcome × Endpoint) UInt8 UInt8

/-- One of the two moves. -/
def LinkStep (b : Board) (behind file : List UInt8) : Link → Link → Prop :=
  Step (uploader file).party (receiver b behind).party

/-- The start: the receiver has flushed its input, and the uploader has said nothing yet. -/
def linked (path file data : List UInt8) (s : Store) (asks : Nat) (more : List Nat) : Link :=
  ⟨(upload path file, ()), (.pure (.inl (.init data)), ⟨s, (asks + 1) :: more⟩), [], []⟩

/-- `send_ymodem` has returned 0. -/
def Sent (c : Link) : Prop := c.left.1 = .pure (.inr true)

/-- `rtbus_ymodem_recv` has returned 0. -/
def Received (c : Link) : Prop := ∃ v, c.right.1 = .pure (.inr (.ok, v))

/-- The bytes that the component slot begins with in the end. -/
def Link.slot (c : Link) (size : Nat) : List UInt8 := c.right.2.store.flash.slot.slice 0 size

/-- The files that the image store accepts. -/
structure Storable (b : Board) (file : List UInt8) : Prop where
  header : imageHeaderSize ≤ file.length
  slot : file.length ≤ b.slot.size
  partition : file.length ≤ (b.partition b.directStoreArea).size
  accepts : AcceptsFile b file

/-- The name is a C string, and with a zero and the size it fits into the 127 bytes of block 0. -/
structure Fits (path file : List UInt8) : Prop where
  string : 0 ∉ path
  room : (baseName path).length + 1 + (write file.length).length ≤ 127

/-! ## The receiver at the link -/

/-- The receiver that has got more bytes has sent what it had sent, and more. -/
theorem receiver_monotone (b : Board) (behind : List UInt8) : (receiver b behind).Monotone := by
  intro o s i a s' i' out h more
  cases o with
  | serialBegin => cases h
  | flushRx => cases h
  | waitHeader =>
    cases i with
    | nil => cases h
    | cons byte i =>
      cases h
      rfl
  | readByte timeoutMs =>
    cases i with
    | nil => cases h
    | cons byte i =>
      cases h
      rfl
  | readExact len timeoutMs =>
    change (if i.length < len then none else some (_, _, _, _)) = _ at h
    show (if (i ++ more).length < len then none else some (_, _, _, _)) = _
    split at h
    · cases h
    · rename_i hlen
      have hle : len ≤ i.length := Nat.not_lt.mp hlen
      cases h
      rw [if_neg (by rw [List.length_append]; omega), List.take_append_of_le_length hle,
        List.drop_append_of_le_length hle]
      rfl
  | put byte =>
    cases h
    rfl
  | storeBegin imageSize =>
    cases h
    rfl
  | storeWrite offset data =>
    cases h
    rfl
  | storeFinish status =>
    cases h
    rfl

/-- The answer of an operation whose time did not run out. -/
def Op.InTime : (o : Op) → o.Answer → Prop
  | .serialBegin, _ | .flushRx, _ => False
  | .waitHeader, a | .readByte _, a => ∃ byte, a = .ok byte
  | .readExact _ _, a => ∃ bytes, a = .ok bytes
  | .put _, _ | .storeBegin _, _ | .storeWrite _ _, _ | .storeFinish _, _ => True

/-- What the device does on its line, as long as no time runs out, is what the endpoint does when it
has asked for a packet as many times. -/
theorem serve_act {b : Board} {o : Op} {d d' : Device} {a : o.Answer}
    (h : Device.serve b o d = some (a, d')) (inTime : o.InTime a) (more : List Nat) : ∃ k asks out,
      d'.line.sent = d.line.sent ++ List.replicate k crcRequest ++ out ∧ (0 < k → o = .waitHeader) ∧
      Endpoint.act b o ⟨d.store, 0 :: more⟩ d.line.stream =
        some (a, ⟨d'.store, asks⟩, d'.line.stream, out) := by
  cases o with
  | serialBegin => exact inTime.elim
  | flushRx => exact inTime.elim
  | waitHeader =>
    obtain ⟨byte, rfl⟩ := inTime
    obtain ⟨l', r, hwait, hok, _⟩ := ymodemWaitHeader_spec d.line
    obtain ⟨k, hk⟩ := ymodemWaitHeader_sent d.line
    have hserve : some (r, { d with line := l' }) = some (Except.ok byte, d') := by
      refine Eq.trans ?_ h
      show _ = some (d.onLine (ymodemWaitHeader d.line))
      rw [hwait]
      rfl
    cases hserve
    rw [hwait] at hk
    refine ⟨k, more, [], by rw [List.append_nil]; exact hk, fun _ => rfl, ?_⟩
    show Endpoint.readFirst _ d.line.stream = _
    rw [hok byte rfl]
    rfl
  | readByte timeoutMs =>
    obtain ⟨byte, rfl⟩ := inTime
    obtain ⟨l', r, hread, hsent, hok, _⟩ := ymodemReadByte_spec timeoutMs d.line
    have hserve : some (r, { d with line := l' }) = some (Except.ok byte, d') := by
      refine Eq.trans ?_ h
      show _ = some (d.onLine (ymodemReadByte timeoutMs d.line))
      rw [hread]
      rfl
    cases hserve
    refine ⟨0, 0 :: more, [], by simpa using hsent, fun h => absurd h (Nat.lt_irrefl _), ?_⟩
    show Endpoint.readFirst _ d.line.stream = _
    rw [hok byte rfl]
    rfl
  | readExact len timeoutMs =>
    obtain ⟨bytes, rfl⟩ := inTime
    obtain ⟨l', r, hread, hsent, hok, _⟩ := ymodemReadExact_spec len timeoutMs d.line
    have hserve : some (r, { d with line := l' }) = some (Except.ok bytes, d') := by
      refine Eq.trans ?_ h
      show _ = some (d.onLine (ymodemReadExact len timeoutMs d.line))
      rw [hread]
      rfl
    cases hserve
    obtain ⟨hlen, hstream⟩ := hok bytes rfl
    refine ⟨0, 0 :: more, [], by simpa using hsent, fun h => absurd h (Nat.lt_irrefl _), ?_⟩
    show (if _ < _ then none else some (_, _, _, _)) = _
    rw [hstream, if_neg (by rw [List.length_append]; omega), ← hlen, List.take_left, List.drop_left]
  | put byte =>
    cases h
    exact ⟨0, 0 :: more, [byte], by simp [Line.put, Line.write], fun h => absurd h (Nat.lt_irrefl _), rfl⟩
  | storeBegin imageSize =>
    cases h
    exact ⟨0, 0 :: more, [], by simp, fun h => absurd h (Nat.lt_irrefl _), rfl⟩
  | storeWrite offset data =>
    cases h
    exact ⟨0, 0 :: more, [], by simp, fun h => absurd h (Nat.lt_irrefl _), rfl⟩
  | storeFinish status =>
    cases h
    exact ⟨0, 0 :: more, [], by simp, fun h => absurd h (Nat.lt_irrefl _), rfl⟩

section Receiver

variable {b : Board} {behind : List UInt8} {v : Locals} {e e' : Endpoint} {i i' out : List UInt8}

/-- Sending a byte appends it to the output. -/
theorem run_put (byte : UInt8) : (put byte).run (receiver b behind).server (e, i, out) =
    some ((), e, i, out ++ [byte]) := rfl

/-- An operation that says nothing. -/
theorem run_quiet {o : Op} {a : o.Answer} (silent : Endpoint.pause o e = none)
    (h : Endpoint.act b o e i = some (a, e', i', [])) :
    (Prog.perform (I := surroundings) o).run (receiver b behind).server (e, i, out) =
      some (a, e', i', out) := by
  refine (Prog.run_perform (I := surroundings) o _).trans ?_
  show (if Endpoint.pause o e = none then (Endpoint.act b o e i).map _ else none) = _
  rw [if_pos silent, h]
  show some (a, e', i', out ++ []) = _
  rw [List.append_nil]

/-- Opening a session is that of the store. -/
theorem run_storeBegin {size : Nat} {s : Store} {ret : Ret}
    (h : imageStoreBegin b size e.store = (s, ret)) :
    (storeBegin size).run (receiver b behind).server (e, i, out) =
      some (ret, { e with store := s }, i, out) :=
  run_quiet (o := .storeBegin size) rfl (by show e.onStore i _ = _; rw [h]; rfl)

/-- So is writing to it. -/
theorem run_storeWrite {offset : Nat} {data : List UInt8} {s : Store} {ret : Ret}
    (h : imageStoreWrite b offset data e.store = (s, ret)) :
    (storeWrite offset data).run (receiver b behind).server (e, i, out) =
      some (ret, { e with store := s }, i, out) :=
  run_quiet (o := .storeWrite offset data) rfl (by show e.onStore i _ = _; rw [h]; rfl)

/-- So is closing it. -/
theorem run_storeFinish {status ret : Ret} {s : Store}
    (h : imageStoreFinish b status e.store = (s, ret)) :
    (storeFinish status).run (receiver b behind).server (e, i, out) =
      some (ret, { e with store := s }, i, out) :=
  run_quiet (o := .storeFinish status) rfl (by show e.onStore i _ = _; rw [h]; rfl)

/-- A byte that has come is read. -/
theorem run_readByte (timeoutMs : Nat) (byte : UInt8) :
    (readByte timeoutMs).run (receiver b behind).server (e, byte :: i, out) =
      some (.ok byte, e, i, out) :=
  run_quiet (o := .readByte timeoutMs) rfl rfl

/-- So is a header, with the requests that are due first. -/
theorem run_waitHeader {more : List Nat} (asked : e.asks = 0 :: more) (byte : UInt8) :
    waitHeader.run (receiver b behind).server (e, byte :: i, out) =
      some (.ok byte, { e with asks := more }, i, out) := by
  cases e
  cases asked
  exact run_quiet (o := .waitHeader) rfl rfl

/-- So are many bytes at once. -/
theorem run_readExact {len : Nat} (timeoutMs : Nat) {bytes : List UInt8} (h : bytes.length = len) :
    (readExact len timeoutMs).run (receiver b behind).server (e, bytes ++ i, out) =
      some (.ok bytes, e, i, out) := by
  refine run_quiet (o := .readExact len timeoutMs) rfl ?_
  show (if _ < _ then none else some (_, _, _, _)) = _
  rw [if_neg (by rw [List.length_append]; omega), ← h, List.take_left, List.drop_left]

/-- A header behind the metadata. -/
theorem run_turn (header : UInt8) (metadata : v.gotMetadata = true) :
    (turn behind v).run (receiver b behind).server (e, header :: i, out) =
      (recvHeader behind header v).run (receiver b behind).server (e, i, out) := by
  unfold turn readHeader
  rw [if_pos metadata, Prog.run_bind, run_readByte]
  rfl

/-- The first header, when the receiver has asked for it. -/
theorem run_turn_first (header : UInt8) {more : List Nat} (metadata : v.gotMetadata = false)
    (asked : e.asks = 0 :: more) :
    (turn behind v).run (receiver b behind).server (e, header :: i, out) =
      (recvHeader behind header v).run (receiver b behind).server
        ({ e with asks := more }, i, out) := by
  unfold turn readHeader
  rw [if_neg (by rw [metadata]; simp), Prog.run_bind, run_waitHeader asked]
  rfl

/-- The host's packet is read. -/
theorem run_recvHeader {start : UInt8} (number : UInt8) {data : List UInt8}
    (h : payloadLen start = some data.length) :
    (recvHeader behind start v).run (receiver b behind).server
        (e, (sendPacket start number data).drop 1 ++ i, out) =
      (recvPacket behind number ⟨start, (sendPacket start number data).drop 1, data⟩ v).run
        (receiver b behind).server (e, i, out) := by
  have hlen : ((sendPacket start number data).drop 1).length = data.length + packetOverhead := by
    simp [sendPacket, crcBytes, packetOverhead]
  have hcheck : checkPacket data.length ((sendPacket start number data).drop 1) =
      .ok (number, data) := by
    have hread := read_sendPacket start number data [] h
    unfold ymodemReadPacket at hread
    rw [h, List.append_nil] at hread
    dsimp only at hread
    rwa [if_neg (by omega), ← hlen, List.take_length] at hread
  have hkind : start ≠ can ∧ start ≠ eot := by
    constructor
    · rintro rfl
      cases h
    · rintro rfl
      cases h
  unfold recvHeader readPacket
  rw [if_neg hkind.1, if_neg hkind.2, h, Prog.run_bind]
  dsimp only
  rw [Prog.run_bind, run_readExact byteTimeoutMs hlen]
  show Option.bind (some ((checkPacket data.length _).map _, e, i, out)) _ = _
  rw [hcheck]
  rfl

variable (out) in
/-- The file has no size that could be read. -/
theorem run_recvMetadata_none {len : Nat}
    (empty : ymodemParseFileSize (v.data ++ behind) len = 0) : ∃ v',
      (recvMetadata behind 0 len v).run (receiver b behind).server (e, i, out) =
        some (.inr (.err .EINVAL, v'), e, i, out ++ [nak]) := by
  unfold recvMetadata
  rw [if_neg (by simp)]
  dsimp only
  rw [if_pos empty, Prog.run_bind, run_put]
  exact ⟨_, rfl⟩

variable (out) in
/-- The image store does not begin. -/
theorem run_recvMetadata_refused {len : Nat} {s : Store} {error : Errno}
    (size : ymodemParseFileSize (v.data ++ behind) len ≠ 0)
    (h : imageStoreBegin b (ymodemParseFileSize (v.data ++ behind) len) e.store = (s, .err error)) :
    ∃ v', (recvMetadata behind 0 len v).run (receiver b behind).server (e, i, out) =
      some (.inr (.err error, v'), { e with store := s }, i, out ++ [ack] ++ [crcRequest] ++ [can]) := by
  unfold recvMetadata
  rw [if_neg (by simp)]
  dsimp only
  rw [if_neg size, Prog.run_bind, run_put]
  dsimp only [Option.bind_some]
  rw [Prog.run_bind, run_put]
  dsimp only [Option.bind_some]
  rw [Prog.run_bind, run_storeBegin h]
  exact ⟨_, rfl⟩

variable (out) in
/-- It does. -/
theorem run_recvMetadata_begun (len : Nat) {s : Store}
    (size : ymodemParseFileSize (v.data ++ behind) len ≠ 0)
    (h : imageStoreBegin b (ymodemParseFileSize (v.data ++ behind) len) e.store = (s, .ok)) :
    (recvMetadata behind 0 len v).run (receiver b behind).server (e, i, out) =
      some (.inl { v with
        gotMetadata := true
        expectedSize := ymodemParseFileSize (v.data ++ behind) len
        storeActive := true }, { e with store := s }, i, out ++ [ack] ++ [crcRequest]) := by
  unfold recvMetadata
  rw [if_neg (by simp)]
  dsimp only
  rw [if_neg size, Prog.run_bind, run_put]
  dsimp only [Option.bind_some]
  rw [Prog.run_bind, run_put]
  dsimp only [Option.bind_some]
  rw [Prog.run_bind, run_storeBegin h]
  rfl

/-- A block is stored. -/
theorem run_recvBlock (block : Block) {s : Store}
    (h : imageStoreWrite b v.receivedSize (block.payload.take
      (min block.payload.length (v.expectedSize - v.receivedSize))) e.store = (s, .ok)) :
    (recvBlock v.expectedBlock block v).run (receiver b behind).server (e, i, out) =
      some (.inl { v with
        receivedSize := v.receivedSize + min block.payload.length (v.expectedSize - v.receivedSize)
        expectedBlock := v.expectedBlock + 1
        accepted := v.accepted ++ [block] }, { e with store := s }, i, out ++ [ack]) := by
  unfold recvBlock
  rw [if_neg (not_not.mpr rfl)]
  dsimp only
  rw [Prog.run_bind, run_storeWrite h]
  dsimp only [Option.bind_some]
  rw [Prog.run_bind, run_put]
  rfl

/-- The end of the file is announced. -/
theorem run_recvEot (first : v.eotSeen = false) :
    (recvEot v).run (receiver b behind).server (e, i, out) =
      some (.inl { v with eotSeen := true }, e, i, out ++ [nak]) := by
  unfold recvEot
  rw [if_neg (by rw [first]; simp), Prog.run_bind, run_put]
  rfl

/-- It is confirmed. -/
theorem run_recvEot_again (again : v.eotSeen = true) :
    (recvEot v).run (receiver b behind).server (e, i, out) =
      some (.inl v, e, i, out ++ [ack] ++ [crcRequest]) := by
  unfold recvEot
  rw [if_pos again, Prog.run_bind, run_put]
  dsimp only [Option.bind_some]
  rw [Prog.run_bind, run_put]
  rfl

/-- The session is finished. -/
theorem run_recvFinish {s : Store} {ret : Ret} (h : imageStoreFinish b .ok e.store = (s, ret)) :
    ∃ v', (recvFinish v).run (receiver b behind).server (e, i, out) =
      some (.inr (ret, v'), { e with store := s }, i,
        out ++ [if ret = .ok then ack else can]) := by
  unfold recvFinish
  rw [Prog.run_bind, run_storeFinish h]
  dsimp only [Option.bind_some]
  cases ret with
  | err error =>
    dsimp only
    rw [Prog.run_bind, run_put, if_neg (fun h => by cases h)]
    exact ⟨_, rfl⟩
  | ok =>
    dsimp only
    rw [Prog.run_bind, run_put, if_pos rfl]
    exact ⟨_, rfl⟩

/-- Between two blocks: the payloads that were sent are stored, up to the size of the file. -/
structure Transfer (b : Board) (size : Nat) (payloads : List UInt8) (blockNo : UInt8) (v : Locals)
    (s : Store) : Prop where
  metadata : v.gotMetadata = true
  eot : v.eotSeen = false
  expected : v.expectedSize = size
  block : v.expectedBlock = blockNo
  session : Session b size (payloads.take size) s
  received : v.receivedSize = (payloads.take size).length
  fine : s.flash.Fine

/-- A packet begins with its header. -/
theorem sendPacket_eq (start number : UInt8) (data : List UInt8) :
    sendPacket start number data = start :: ((sendPacket start number data).drop 1 ++ []) := by
  rw [List.append_nil]
  rfl

variable (behind out) in
/-- The receiver takes one block. -/
theorem block_turn (geometry : b.Geometry) {size : Nat} {payloads data : List UInt8}
    {start blockNo : UInt8} (h : Transfer b size payloads blockNo v e.store)
    (whole : payloadLen start = some data.length) : ∃ v' s',
      (turn behind v).run (receiver b behind).server (e, sendPacket start blockNo data, out) =
        some (.inl v', { e with store := s' }, [], out ++ [ack]) ∧
      Transfer b size (payloads ++ data) (blockNo + 1) v' s' ∧
      v'.accepted.map Block.payload = v.accepted.map Block.payload ++ [data] := by
  obtain ⟨metadata, eot, rfl, rfl, session, received, fine⟩ := h
  have hroom : (payloads.take v.expectedSize).length ≤ v.expectedSize := List.length_take_le ..
  have htaken : (data.take (min data.length (v.expectedSize - v.receivedSize))).length =
      min data.length (v.expectedSize - v.receivedSize) := by
    rw [List.length_take]
    omega
  obtain ⟨s', ret, hwrite, changes, _, hok, hfine⟩ := imageStoreWrite_spec v.receivedSize
    (data.take (min data.length (v.expectedSize - v.receivedSize))) session
  obtain rfl := hfine fine geometry received (by
    rw [htaken, received]
    omega)
  have session' := (hok rfl).2
  rw [received, ← take_append_min] at session'
  rw [sendPacket_eq, run_turn start metadata, run_recvHeader v.expectedBlock whole]
  unfold recvPacket
  dsimp only
  rw [if_neg (by rw [metadata]; simp), if_neg (by rw [eot]; simp)]
  refine ⟨_, s', run_recvBlock (v := { v with data := receiveInto v.data data })
    ⟨start, _, data⟩ hwrite, ⟨metadata, eot, rfl, rfl, session', ?_, changes.fine fine⟩,
    List.map_append⟩
  show v.receivedSize + min data.length (v.expectedSize - v.receivedSize) = _
  rw [take_append_min, List.length_append, ← received, htaken]

/-- The receiver is told the end. -/
theorem eot_turn {size : Nat} {payloads : List UInt8} {blockNo : UInt8}
    (h : Transfer b size payloads blockNo v e.store) :
    (turn behind v).run (receiver b behind).server (e, [eot], out) =
      some (.inl { v with eotSeen := true }, e, [], out ++ [nak]) := by
  rw [run_turn eot h.metadata]
  exact run_recvEot h.eot

/-- It is told a second time. -/
theorem eot_turn_again (metadata : v.gotMetadata = true) (again : v.eotSeen = true) :
    (turn behind v).run (receiver b behind).server (e, [eot], out) =
      some (.inl v, e, [], out ++ [ack] ++ [crcRequest]) := by
  rw [run_turn eot metadata]
  exact run_recvEot_again again

variable (behind out) in
/-- The packet without a name ends the session. -/
theorem finish_turn (metadata : v.gotMetadata = true) (again : v.eotSeen = true) {s : Store}
    {ret : Ret} (h : imageStoreFinish b .ok e.store = (s, ret)) : ∃ v',
      (turn behind v).run (receiver b behind).server
          (e, sendPacket soh 0 (List.replicate block128 0), out) =
        some (.inr (ret, v'), { e with store := s }, [], out ++ [if ret = .ok then ack else can]) := by
  rw [sendPacket_eq, run_turn soh metadata, run_recvHeader 0 (by rw [List.length_replicate]; rfl)]
  unfold recvPacket
  dsimp only
  rw [if_neg (by rw [metadata]; simp), if_pos ⟨again, rfl⟩]
  exact run_recvFinish h

end Receiver

/-! ## The two at the link -/

section Transferring

variable {b : Board} {behind file : List UInt8} {v : Locals} {e : Endpoint}

/-- A data block has 1024 bytes, the last one with its padding. -/
theorem length_dataBlock (file : List UInt8) (offset : Nat) :
    (dataBlock file offset).2.length = block1024 := by
  unfold dataBlock
  dsimp only
  rw [List.length_append, List.length_take, List.length_drop, List.length_replicate]
  omega

/-- What was sent is the file up to the offset, with padding behind its end only. -/
def Padded (file : List UInt8) (offset : Nat) (payloads : List UInt8) : Prop :=
  ∃ n, payloads = file.take offset ++ List.replicate n 0x1a ∧ (offset < file.length → n = 0)

/-- One more block of the file, padded if it is the last. -/
theorem Padded.block {offset : Nat} {payloads : List UInt8} (h : Padded file offset payloads)
    (more : offset < file.length) :
    Padded file (offset + (dataBlock file offset).1) (payloads ++ (dataBlock file offset).2) := by
  obtain ⟨n, rfl, hn⟩ := h
  obtain rfl := hn more
  refine ⟨block1024 - (dataBlock file offset).1, ?_, fun h => ?_⟩
  · unfold dataBlock
    dsimp only
    rw [List.replicate_zero, List.append_nil, List.take_add, List.append_assoc]
  · unfold dataBlock at h ⊢
    dsimp only at h ⊢
    omega

variable (behind) in
/-- A block is sent, stored and acknowledged. -/
theorem round (geometry : b.Geometry) {size offset : Nat} {payloads : List UInt8} {blockNo : UInt8}
    (more : offset < file.length) (h : Transfer b size payloads blockNo v e.store) : ∃ v' s',
      Reaches (LinkStep b behind file)
        ⟨(.pure (.inl ⟨offset, blockNo⟩), ()), (.pure (.inl v), e), [], []⟩
        ⟨(.pure (.inl ⟨offset + (dataBlock file offset).1, blockNo + 1⟩), ()),
          (.pure (.inl v'), { e with store := s' }), [], []⟩ ∧
      Transfer b size (payloads ++ (dataBlock file offset).2) (blockNo + 1) v' s' := by
  obtain ⟨v', s', hturn, transfer, _⟩ := @block_turn _ behind _ e [] geometry _ _ _ stx _ h
    (by rw [length_dataBlock file offset]; rfl)
  refine ⟨v', s', ?_, transfer⟩
  refine (Agent.again_left _).trans ?_
  rw [show (uploader file).body ⟨offset, blockNo⟩ = _ from if_pos more]
  refine (call_succeeds file (run_putPacket file stx blockNo _) _).trans ?_
  refine (Agent.turn_right hturn).trans ?_
  exact call_succeeds file (run_waitByte file rfl) _

variable (behind file) in
/-- All blocks are. -/
theorem rounds (geometry : b.Geometry) {size offset : Nat} {payloads : List UInt8} {blockNo : UInt8}
    (inside : offset ≤ file.length) (padded : Padded file offset payloads)
    (h : Transfer b size payloads blockNo v e.store) : ∃ blockNo' v' s' n,
      Reaches (LinkStep b behind file)
        ⟨(.pure (.inl ⟨offset, blockNo⟩), ()), (.pure (.inl v), e), [], []⟩
        ⟨(.pure (.inl ⟨file.length, blockNo'⟩), ()), (.pure (.inl v'), { e with store := s' }), [], []⟩ ∧
      Transfer b size (file ++ List.replicate n 0x1a) blockNo' v' s' := by
  induction hleft : file.length - offset using Nat.strongRecOn generalizing offset payloads blockNo v e with
  | ind left ih =>
    by_cases more : offset < file.length
    · obtain ⟨v₁, s₁, hround, h₁⟩ := round behind geometry more h
      have hchunk : 0 < (dataBlock file offset).1 ∧
          offset + (dataBlock file offset).1 ≤ file.length := by
        unfold dataBlock block1024
        dsimp only
        omega
      obtain ⟨blockNo', v', s', n, hrest, h'⟩ := ih _ (by omega) hchunk.2 (padded.block more)
        (e := { e with store := s₁ }) h₁ rfl
      exact ⟨blockNo', v', s', n, hround.trans hrest, h'⟩
    · obtain rfl : offset = file.length := by omega
      obtain ⟨n, rfl, _⟩ := padded
      rw [List.take_length] at h
      exact ⟨blockNo, v, e.store, n, .refl _, h⟩

variable (behind file) in
/-- The end of the file and of the session. -/
theorem closing {size : Nat} {payloads : List UInt8} {blockNo : UInt8}
    (h : Transfer b size payloads blockNo v e.store) {s : Store} {ret : Ret}
    (finish : imageStoreFinish b .ok e.store = (s, ret)) : ∃ v',
      Reaches (LinkStep b behind file)
        ⟨(.pure (.inl ⟨file.length, blockNo⟩), ()), (.pure (.inl v), e), [], []⟩
        ⟨(.pure (.inr (decide (ret = .ok))), ()), (.pure (.inr (ret, v')), { e with store := s }),
          [], []⟩ := by
  obtain ⟨v', hfinish⟩ := finish_turn behind (v := { v with eotSeen := true }) []
    h.metadata rfl finish
  refine ⟨v', (Agent.again_left _).trans ?_⟩
  rw [show (uploader file).body ⟨file.length, blockNo⟩ = _ from if_neg (Nat.lt_irrefl _)]
  generalize List.replicate block128 0 = data at hfinish ⊢
  refine (call_succeeds file (run_serialWriteAll file [eot]) _).trans ?_
  refine (Agent.turn_right (eot_turn h)).trans ?_
  refine (call_succeeds file (run_waitByte file (j := []) rfl) _).trans ?_
  refine (call_succeeds file (run_serialWriteAll file [eot]) _).trans ?_
  refine (Agent.turn_right (eot_turn_again (v := { v with eotSeen := true }) h.metadata rfl)).trans ?_
  refine (call_succeeds file (run_waitByte file (j := [crcRequest]) rfl) _).trans ?_
  refine (call_succeeds file (run_waitByte file (j := []) rfl) _).trans ?_
  refine (call_succeeds file (run_putPacket file soh 0 _) _).trans ?_
  rw [List.nil_append]
  refine (Agent.turn_right hfinish).trans ?_
  cases ret with
  | ok => exact call_succeeds file (run_waitByte file (j := []) rfl) _
  | err error => exact call_fails file (run_waitByte file (j := []) rfl) _

/-- The receiver asks for a packet, and then waits. -/
theorem asking {s : Store} {t : Send SendOutcome × Unit} {p : Except Errno UInt8 → Recv Outcome}
    (asks : Nat) (more : List Nat) (i out : List UInt8) : Reaches (LinkStep b behind file)
      ⟨t, (.vis .waitHeader p, ⟨s, asks :: more⟩), out, i⟩
      ⟨t, (.vis .waitHeader p, ⟨s, 0 :: more⟩), out ++ List.replicate asks crcRequest, i⟩ := by
  induction asks generalizing out with
  | zero =>
    rw [List.replicate_zero, List.append_nil]
    exact .refl _
  | succ asks ih =>
    have step : LinkStep b behind file ⟨t, (.vis .waitHeader p, ⟨s, (asks + 1) :: more⟩), out, i⟩
        ⟨t, (.vis .waitHeader p, ⟨s, asks :: more⟩), out ++ [crcRequest], i⟩ :=
      Agent.pause_right rfl
    have rest := ih (out ++ [crcRequest])
    rw [List.append_assoc, List.singleton_append, ← List.replicate_succ] at rest
    exact .head step rest

/-- How `send_ymodem` goes on behind the metadata. -/
def behindMetadata (ok : Bool) : Send SendOutcome :=
  if ok = true then pure (.inl ⟨0, 1⟩) else pure (.inr false)

/-- The size that the receiver reads in block 0. -/
def announced (path file data behind : List UInt8) : Nat :=
  ymodemParseFileSize (receiveInto data (metadataBlock path file.length) ++ behind) 128

variable (behind file) in
/-- The receiver reads block 0. -/
theorem metadata_turn (path data : List UInt8) (s : Store) (more : List Nat) (out : List UInt8) :
    (turn behind (.init data)).run (receiver b behind).server
        (⟨s, 0 :: more⟩, sendPacket soh 0 (metadataBlock path file.length), out) =
      (recvMetadata behind 0 128
        { Locals.init data with data := receiveInto data (metadataBlock path file.length) }).run
          (receiver b behind).server (⟨s, more⟩, [], out) := by
  have hlen := length_metadataBlock path file.length
  rw [sendPacket_eq, run_turn_first soh rfl rfl, run_recvHeader 0 (by rw [hlen]; rfl)]
  show (recvMetadata behind 0 (metadataBlock path file.length).length
    { Locals.init data with data := receiveInto data (metadataBlock path file.length) }).run
      (receiver b behind).server (⟨s, more⟩, [], out) = _
  rw [hlen]
  rfl

/-- The uploader answers the first letter with block 0, and the receiver has read it. -/
theorem opening (path data : List UInt8) (s : Store) (asks : Nat) (more : List Nat)
    {r : Outcome} {e' : Endpoint} {j : List UInt8}
    (h : (recvMetadata behind 0 128
      { Locals.init data with data := receiveInto data (metadataBlock path file.length) }).run
        (receiver b behind).server (⟨s, more⟩, [], List.replicate asks crcRequest) =
          some (r, e', [], List.replicate asks crcRequest ++ j)) :
    Reaches (LinkStep b behind file) (linked path file data s asks more)
      ⟨(inTurn [waitByte ack, waitByte crcRequest] >>= behindMetadata, ()), (.pure r, e'),
        List.replicate asks crcRequest ++ j, []⟩ := by
  have hturn := (metadata_turn (b := b) behind file path data s more _).trans h
  refine (Agent.again_right _).trans ?_
  obtain ⟨p, hp⟩ : ∃ p, (receiver b behind).body (.init data) = .vis .waitHeader p := ⟨_, rfl⟩
  rw [hp]
  refine (asking (asks + 1) more [] []).trans ?_
  rw [← hp]
  have hready : waitReadyAndCrc.run (uploader file).server
      ((), List.replicate (asks + 1) crcRequest, []) =
        some (true, (), List.replicate asks crcRequest, []) := rfl
  refine (Agent.reaches_left hready _).trans ?_
  refine (call_succeeds file (run_putPacket file soh 0 _) behindMetadata).trans ?_
  rw [List.nil_append]
  exact Agent.ends_right hturn

/-- The letters that were not needed are passed over. -/
theorem acknowledged {t : Recv Outcome × Endpoint} (asks : Nat) (more : List UInt8) :
    Reaches (LinkStep b behind file)
      ⟨(inTurn [waitByte ack, waitByte crcRequest] >>= behindMetadata, ()), t,
        List.replicate asks crcRequest ++ ack :: crcRequest :: more, []⟩
      ⟨(.pure (.inl ⟨0, 1⟩), ()), t, more, []⟩ := by
  have hack : readUntil ack (List.replicate asks crcRequest ++ ack :: crcRequest :: more) =
      some (true, crcRequest :: more) := by
    rw [readUntil_skip (by decide) (by decide)]
    rfl
  refine (call_succeeds file (run_waitByte file hack) behindMetadata).trans ?_
  exact call_succeeds file (run_waitByte file (j := more) rfl) behindMetadata

variable (behind file) in
/-- The receiver has cancelled, and the uploader sees it at its next wait. -/
theorem canceled {e : Endpoint} (error : Errno) {v : Locals} : ∃ j,
    Reaches (LinkStep b behind file)
      ⟨(.pure (.inl ⟨0, 1⟩), ()), (.pure (.inr (.err error, v)), e), [can], []⟩
      ⟨(.pure (.inr false), ()), (.pure (.inr (.err error, v)), e), [], j⟩ := by
  by_cases more : 0 < file.length
  · refine ⟨[] ++ sendPacket stx 1 (dataBlock file 0).2, (Agent.again_left _).trans ?_⟩
    rw [show (uploader file).body ⟨0, 1⟩ = _ from if_pos more]
    refine (call_succeeds file (run_putPacket file stx 1 _) _).trans ?_
    exact call_fails file (run_waitByte file (j := []) rfl) _
  · refine ⟨[] ++ [eot], (Agent.again_left _).trans ?_⟩
    rw [show (uploader file).body ⟨0, 1⟩ = _ from if_neg more]
    refine (call_succeeds file (run_serialWriteAll file [eot]) _).trans ?_
    exact call_fails file (run_waitByte file (j := []) rfl) _

end Transferring

/-! ## Every transfer -/

/-- What holds when nothing can happen any more. -/
structure Agreed (b : Board) (path file : List UInt8) (last : Link) : Prop where
  both : Sent last ↔ Received last
  stored : Sent last → ∃ stored, Storable b stored ∧ last.slot stored.length = stored ∧
    (Fits path file → stored = file)
  accepted : Fits path file → Storable b file → Sent last

section Transfers

variable {b : Board} {s s' : Store}

/-- Neither has returned 0, and the file is not one that the store accepts. -/
theorem Agreed.refused {path file : List UInt8} {last : Link} (sent : ¬ Sent last)
    (received : ¬ Received last) (storable : Fits path file → ¬ Storable b file) :
    Agreed b path file last :=
  ⟨iff_of_false sent received, fun h => absurd h sent,
    fun fits accepted => absurd accepted (storable fits)⟩

/-- The uploader is at a wait, and what it waits for is not there. -/
theorem blocked {file i : List UInt8} {expected : UInt8} (h : readUntil expected i = none)
    (calls : List (Send Bool)) (k : Bool → Send SendOutcome) :
    (uploader file).party (inTurn (waitByte expected :: calls) >>= k, ()) i = none := by
  show ((readUntil expected i).map _).map _ = none
  rw [h]
  rfl

/-- The size of a file that is accepted is read. -/
theorem announced_of_fits {path file : List UInt8} (small : b.slot.size < 2 ^ 32 - 1)
    (fits : Fits path file) (storable : Storable b file) (data behind : List UInt8) :
    announced path file data behind = file.length := by
  have hslot := storable.slot
  unfold announced receiveInto
  rw [List.append_assoc, parse_of_fits fits.string fits.room]
  omega

/-- A transfer whose session was begun comes to an end. -/
theorem reaches_end_begun (geometry : b.Geometry) (small : b.slot.size < 2 ^ 32 - 1)
    {path file behind data : List UInt8} (size : announced path file data behind ≠ 0)
    (hbegin : imageStoreBegin b (announced path file data behind) s = (s', .ok))
    (fine : s'.flash.Fine) (session : Session b (announced path file data behind) [] s')
    {asks : Nat} (more : List Nat) : ∃ last,
      Reaches (LinkStep b behind file) (linked path file data s asks more) last ∧
        Stuck (LinkStep b behind file) last ∧ Agreed b path file last := by
  have hrun := run_recvMetadata_begun (b := b) (e := ⟨s, more⟩) (i := [])
    (v := { Locals.init data with data := receiveInto data (metadataBlock path file.length) })
    (List.replicate asks crcRequest) 128 size hbegin
  rw [List.append_assoc] at hrun
  have begun : Transfer b (announced path file data behind) [] 1
      { Locals.init data with
        data := receiveInto data (metadataBlock path file.length)
        gotMetadata := true
        expectedSize := announced path file data behind
        storeActive := true } s' :=
    ⟨rfl, rfl, rfl, rfl, by rwa [List.take_nil], by rw [List.take_nil]; rfl, fine⟩
  obtain ⟨blockNo, v, s₂, n, hrounds, transfer⟩ := rounds behind file (e := ⟨s', more⟩)
    geometry (Nat.zero_le _) ⟨0, rfl, fun _ => rfl⟩ begun
  obtain ⟨s₃, ret, hfinish, _, _, hok, hfine⟩ := imageStoreFinish_spec transfer.session .ok
  obtain ⟨v', hclosing⟩ := closing behind file (e := ⟨s₂, more⟩) transfer hfinish
  have padded (h : announced path file data behind = file.length) :
      (file ++ List.replicate n 0x1a).take (announced path file data behind) = file := by
    rw [h, List.take_left]
  refine ⟨_, (opening path data s asks more hrun).trans ((acknowledged asks []).trans
    (hrounds.trans hclosing)), step_stuck rfl rfl, ?_, fun sent => ?_, fun fits storable => ?_⟩
  · cases ret with
    | ok => exact iff_of_true rfl ⟨v', rfl⟩
    | err error => exact iff_of_false (fun h => by cases h) fun ⟨_, h⟩ => by cases h
  · obtain rfl : ret = .ok := by
      cases ret with
      | ok => rfl
      | err error => cases sent
    obtain ⟨_, hlen, accepts, hslot, _⟩ := hok rfl
    refine ⟨_, ⟨?_, ?_, ?_, accepts⟩, ?_, fun fits => padded ?_⟩
    · rw [hlen]
      exact transfer.session.header
    · rw [hlen]
      exact transfer.session.slot
    · rw [hlen]
      exact transfer.session.partition
    · rw [hlen]
      exact hslot
    · have hslot := transfer.session.slot
      have hread := parse_of_fits fits.string fits.room
        (data.drop (metadataBlock path file.length).length ++ behind)
      unfold announced receiveInto at hslot ⊢
      rw [List.append_assoc, hread] at hslot ⊢
      omega
  · have hlen := announced_of_fits small fits storable data behind
    obtain rfl := hfine transfer.fine geometry rfl (by rw [padded hlen, hlen])
      (by rw [padded hlen]; exact storable.accepts)
    rfl

/-- A transfer comes to an end. -/
theorem reaches_end (geometry : b.Geometry) (small : b.slot.size < 2 ^ 32 - 1)
    (fine : s.flash.Fine) (inactive : s.ctx.active = false) (path file behind data : List UInt8)
    (asks : Nat) (more : List Nat) : ∃ last,
      Reaches (LinkStep b behind file) (linked path file data s asks more) last ∧
        Stuck (LinkStep b behind file) last ∧ Agreed b path file last := by
  have hsize : ymodemParseFileSize ((receiveInto data (metadataBlock path file.length)) ++ behind)
      128 = announced path file data behind := rfl
  by_cases empty : announced path file data behind = 0
  · obtain ⟨v', hrun⟩ := run_recvMetadata_none (b := b) (e := ⟨s, more⟩) (i := [])
      (v := { Locals.init data with data := receiveInto data (metadataBlock path file.length) })
      (List.replicate asks crcRequest) (hsize.trans empty)
    refine ⟨_, opening path data s asks more hrun, step_stuck (blocked ?_ _ _) rfl, ?_⟩
    · rw [readUntil_skip (by decide) (by decide)]
      rfl
    · refine .refused (fun h => by cases h) (fun ⟨_, h⟩ => by cases h) fun fits storable => ?_
      have hheader := storable.header
      rw [← announced_of_fits small fits storable data behind, empty] at hheader
      cases hheader
  · obtain ⟨s₁, ret, hbegin, changes, hok, _, hfine⟩ := imageStoreBegin_spec (b := b)
      (announced path file data behind) inactive
    cases ret with
    | err error =>
      obtain ⟨v', hrun⟩ := run_recvMetadata_refused (b := b) (e := ⟨s, more⟩) (i := [])
        (v := { Locals.init data with data := receiveInto data (metadataBlock path file.length) })
        (List.replicate asks crcRequest) (by rwa [hsize]) (by rwa [hsize])
      rw [List.append_assoc, List.append_assoc] at hrun
      obtain ⟨j, hcanceled⟩ := canceled (b := b) behind file (e := ⟨s₁, more⟩) error
        (v := v')
      refine ⟨_, (opening path data s asks more hrun).trans ((acknowledged asks [can]).trans
        hcanceled), step_stuck rfl rfl, ?_⟩
      refine .refused (fun h => by cases h) (fun ⟨_, h⟩ => by cases h) fun fits storable => ?_
      have hlen := announced_of_fits small fits storable data behind
      cases hfine fine geometry (hlen ▸ storable.header) (hlen ▸ storable.slot)
        (hlen ▸ storable.partition)
    | ok => exact reaches_end_begun geometry small empty hbegin (changes.fine fine) (hok rfl) more

/-- `wait_ready_and_crc` and `send_ymodem` on one side of the link, `rtbus_ymodem_recv` on the other,
whatever the file, its name, what the receiver's memory held before and how many times it has asked
for a packet: every run comes to the same end. There both have returned 0, or neither. If the
name and the size fit into block 0, both have for a file that the image store accepts, and the slot
begins with the file; and neither has for another one. Whatever the name, what is in the slot if they
have is something that the store accepts. -/
theorem upload_agrees (geometry : b.Geometry) (small : b.slot.size < 2 ^ 32 - 1)
    (fine : s.flash.Fine) (inactive : s.ctx.active = false) (path file behind data : List UInt8)
    (asks : Nat) (more : List Nat) : ∃ n last, Stuck (LinkStep b behind file) last ∧
      (∀ k c, Steps (LinkStep b behind file) k (linked path file data s asks more) c →
        ∃ m, n = k + m ∧ Steps (LinkStep b behind file) m c last) ∧
      (Sent last ↔ Received last) ∧
      (Fits path file → Storable b file → Sent last ∧ last.slot file.length = file) ∧
      (Fits path file → ¬ Storable b file → ¬ Sent last) ∧
      (Sent last → ∃ stored, Storable b stored ∧ last.slot stored.length = stored) := by
  obtain ⟨last, ⟨n, hrun⟩, stuck, agreed⟩ :=
    reaches_end geometry small fine inactive path file behind data asks more
  have diamond : Diamond (LinkStep b behind file) :=
    step_diamond (Agent.party_monotone (uploader_monotone file))
      (Agent.party_monotone (receiver_monotone b behind))
  refine ⟨n, last, stuck, fun k c run => hrun.every_run diamond stuck run, agreed.both,
    fun fits storable => ?_, fun fits refused sent => ?_, fun sent => ?_⟩
  · have sent := agreed.accepted fits storable
    obtain ⟨stored, _, hslot, hfile⟩ := agreed.stored sent
    obtain rfl := hfile fits
    exact ⟨sent, hslot⟩
  · obtain ⟨stored, storable, _, hfile⟩ := agreed.stored sent
    exact refused (hfile fits ▸ storable)
  · obtain ⟨stored, storable, hslot, _⟩ := agreed.stored sent
    exact ⟨stored, storable, hslot⟩

end Transfers

/-- The name of the small file fits. -/
theorem small_fits : Fits [0x61] Host.smallFile :=
  ⟨by decide, by decide +kernel⟩

set_option maxRecDepth 100000 in
theorem small_storable : Storable Host.smallBoard Host.smallFile :=
  ⟨by decide +kernel, by decide +kernel, by decide +kernel, by decide +kernel⟩

/-- It is uploaded to a receiver that has asked for a packet four times. -/
theorem small_uploaded : ∃ n last,
    (∀ k c, Steps (LinkStep Host.smallBoard [] Host.smallFile) k
      (linked [0x61] Host.smallFile [] Host.smallStore 3 []) c →
        ∃ m, n = k + m ∧ Steps (LinkStep Host.smallBoard [] Host.smallFile) m c last) ∧
      Sent last ∧ Received last ∧ last.slot Host.smallFile.length = Host.smallFile := by
  obtain ⟨n, last, _, hruns, hboth, hfits, _⟩ := upload_agrees (s := Host.smallStore)
    Host.smallBoard_geometry (by decide) (fun _ => rfl) rfl [0x61] Host.smallFile [] [] 3 []
  obtain ⟨sent, hslot⟩ := hfits small_fits small_storable
  exact ⟨n, last, hruns, sent, hboth.mp sent, hslot⟩

end Rtbus.Ymodem
