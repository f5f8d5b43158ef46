import Rtbus.Serial.Router

/-!
# What a transfer on port 0 gets to read

A firmware transfer reads port 0 through the receive ring, and so behind the control-line router.
`run_returned` says what its readers see of a received stream, for every router state the stream
finds and every order of interrupts and reads: the bytes the router forwards, in order, as long as
the ring never overflows. The router forwards the whole stream exactly when it is not inside a
control line and no `@` stands at a line start (`Router.forwarded_eq_iff`); the last result
composes the two.
-/

namespace Rtbus.Serial

/-! ## The router as a filter -/

/-- The bytes of a stream that the router forwards to the ring. -/
def Router.forwarded (r : Router) : List UInt8 → List UInt8
  | [] => []
  | byte :: rest =>
    let routed := r.routePort0Byte byte
    if routed.forward then byte :: routed.router.forwarded rest else routed.router.forwarded rest

/-- The router after a stream. -/
def Router.after (r : Router) : List UInt8 → Router
  | [] => r
  | byte :: rest => (r.routePort0Byte byte).router.after rest

theorem Router.forwarded_append (r : Router) (xs ys : List UInt8) :
    r.forwarded (xs ++ ys) = r.forwarded xs ++ (r.after xs).forwarded ys := by
  induction xs generalizing r with
  | nil => rfl
  | cons x xs ih =>
    simp only [List.cons_append, Router.forwarded, Router.after]
    split
    · rw [ih, List.cons_append]
    · rw [ih]

theorem Router.forwarded_length_le (r : Router) (bytes : List UInt8) :
    (r.forwarded bytes).length ≤ bytes.length := by
  induction bytes generalizing r with
  | nil => exact Nat.le_refl _
  | cons byte rest ih =>
    simp only [Router.forwarded]
    split
    · exact Nat.succ_le_succ (ih _)
    · exact Nat.le_succ_of_le (ih _)

/-- No `@` of the stream stands at a line start, the stream itself starting at one or not. -/
def NoControlStart (lineStart : Bool) : List UInt8 → Prop
  | [] => True
  | byte :: rest =>
    ¬ (lineStart = true ∧ byte = at_) ∧ NoControlStart (decide (byte = cr ∨ byte = lf)) rest

instance : (lineStart : Bool) → (bytes : List UInt8) → Decidable (NoControlStart lineStart bytes)
  | _, [] => .isTrue trivial
  | _, byte :: rest =>
    have := instDecidableNoControlStart (decide (byte = cr ∨ byte = lf)) rest
    inferInstanceAs (Decidable (_ ∧ _))

/-- A stream that the router passes on whole: it is empty, or the router is not collecting a
control line and none starts in the stream. -/
def Router.Transparent (r : Router) (bytes : List UInt8) : Prop :=
  bytes = [] ∨ (r.controlActive = false ∧ NoControlStart r.port0LineStart bytes)

/-- While a control line is being collected every byte is withheld. -/
theorem Router.forward_of_active {r : Router} (active : r.controlActive = true) (byte : UInt8) :
    (r.routePort0Byte byte).forward = false := by
  unfold Router.routePort0Byte
  rw [if_pos active]
  split
  · rfl
  · split <;> rfl

/-- Outside a control line exactly the `@` at a line start is withheld. -/
theorem Router.route_of_inactive {r : Router} (inactive : r.controlActive = false) (byte : UInt8) :
    (r.port0LineStart = true ∧ byte = at_ → (r.routePort0Byte byte).forward = false) ∧
    (¬ (r.port0LineStart = true ∧ byte = at_) →
      (r.routePort0Byte byte).forward = true ∧
      (r.routePort0Byte byte).router =
        { r with port0LineStart := decide (byte = cr ∨ byte = lf) }) := by
  unfold Router.routePort0Byte
  rw [if_neg (by simp [inactive])]
  constructor
  · intro h
    rw [if_pos h]
  · intro h
    rw [if_neg h]
    exact ⟨rfl, rfl⟩

/-- The router forwards a whole stream exactly when the stream is transparent to it. -/
theorem Router.forwarded_eq_iff (r : Router) (bytes : List UInt8) :
    r.forwarded bytes = bytes ↔ r.Transparent bytes := by
  induction bytes generalizing r with
  | nil => exact ⟨fun _ => .inl rfl, fun _ => rfl⟩
  | cons byte rest ih =>
    -- a withheld byte leaves too few bytes for the streams to be equal
    have short : (r.routePort0Byte byte).forward = false → r.forwarded (byte :: rest) ≠ byte :: rest := by
      intro hf heq
      have hlen := congrArg List.length heq
      simp only [Router.forwarded, hf, Bool.false_eq_true, ↓reduceIte, List.length_cons] at hlen
      have := (r.routePort0Byte byte).router.forwarded_length_le rest
      omega
    cases hactive : r.controlActive with
    | true =>
      constructor
      · intro heq
        exact absurd heq (short (r.forward_of_active hactive byte))
      · rintro (h | ⟨h, _⟩)
        · cases h
        · rw [hactive] at h
          cases h
    | false =>
      obtain ⟨withheld, passed⟩ := r.route_of_inactive hactive byte
      by_cases hstart : r.port0LineStart = true ∧ byte = at_
      · constructor
        · intro heq
          exact absurd heq (short (withheld hstart))
        · rintro (h | ⟨_, h, _⟩)
          · cases h
          · exact absurd hstart h
      · obtain ⟨hf, hr⟩ := passed hstart
        have hstep : r.forwarded (byte :: rest) = byte :: rest ↔
            (r.routePort0Byte byte).router.Transparent rest := by
          simp only [Router.forwarded, hf, ↓reduceIte, List.cons.injEq, true_and]
          exact ih _
        rw [hstep, hr]
        constructor
        · rintro (rfl | ⟨_, h⟩)
          · exact .inr ⟨hactive, hstart, trivial⟩
          · exact .inr ⟨hactive, hstart, h⟩
        · rintro (h | ⟨_, _, h⟩)
          · cases h
          · exact .inr ⟨hactive, h⟩

/-! ## The service with a ring that does not overflow -/

namespace Service

variable {n : Nat}

/-- No byte of a chunk received on port 0 is put on a full ring. -/
def ChunkFits (s : Service n) : List UInt8 → Prop
  | [] => True
  | byte :: rest =>
    ((s.router.routePort0Byte byte).forward = true → ¬ (s.ports 0).rxFull) ∧
      ChunkFits (s.receiveByte 0 byte).2 rest

instance (s : Service n) : (bytes : List UInt8) → Decidable (s.ChunkFits bytes)
  | [] => .isTrue trivial
  | byte :: rest =>
    have := instDecidableChunkFits (s.receiveByte 0 byte).2 rest
    inferInstanceAs (Decidable (_ ∧ _))

/-- The receive ring of port 0 does not overflow in a sequence of events. -/
def Fits (s : Service n) : List SerialEvent → Prop
  | [] => True
  | .fifo id chunks :: rest =>
    (id = 0 → s.ChunkFits (fifoBytes chunks)) ∧ Fits (s.step (.fifo id chunks)).2 rest
  | .read port pollIn size :: rest => Fits (s.step (.read port pollIn size)).2 rest

instance (s : Service n) : (events : List SerialEvent) → Decidable (s.Fits events)
  | [] => .isTrue trivial
  | .fifo id chunks :: rest =>
    have := instDecidableFits (s.step (.fifo id chunks)).2 rest
    inferInstanceAs (Decidable (_ ∧ _))
  | .read port pollIn size :: rest => instDecidableFits (s.step (.read port pollIn size)).2 rest

@[simp] theorem setPort_self (s : Service n) (id : Fin 2) (port : SerialPort n) :
    (s.setPort id port).ports id = port := Function.update_self ..

theorem setPort_other (s : Service n) {id id' : Fin 2} (ne : id' ≠ id) (port : SerialPort n) :
    (s.setPort id port).ports id' = s.ports id' := Function.update_of_ne ne ..

@[simp] theorem setPort_router (s : Service n) (id : Fin 2) (port : SerialPort n) :
    (s.setPort id port).router = s.router := rfl

/-- One chunk after another is one chunk. -/
theorem receiveChunk_append (s : Service n) (id : Fin 2) (xs ys : List UInt8) :
    s.receiveChunk id (xs ++ ys) =
      ((s.receiveChunk id xs).1 ++ ((s.receiveChunk id xs).2.receiveChunk id ys).1,
        ((s.receiveChunk id xs).2.receiveChunk id ys).2) := by
  induction xs generalizing s with
  | nil => rfl
  | cons x xs ih => simp only [List.cons_append, receiveChunk, ih, List.append_assoc]

/-- A drain of the FIFO receives the bytes it reads as one chunk. -/
theorem drainFifo_eq (s : Service n) (id : Fin 2) (chunks : List (List UInt8)) :
    s.drainFifo id chunks = s.receiveChunk id (fifoBytes chunks) := by
  induction chunks generalizing s with
  | nil => rfl
  | cons chunk rest ih =>
    by_cases hempty : chunk = []
    · simp only [drainFifo, fifoBytes, hempty, ↓reduceIte, receiveChunk]
    · simp only [drainFifo, fifoBytes, hempty, ↓reduceIte, receiveChunk_append, ih]

/-- A byte received on port 1 leaves port 0 and the router alone. -/
theorem receiveChunk_other (s : Service n) {id : Fin 2} (ne : id ≠ 0) (bytes : List UInt8) :
    (s.receiveChunk id bytes).2.ports 0 = s.ports 0 ∧
      (s.receiveChunk id bytes).2.router = s.router := by
  induction bytes generalizing s with
  | nil => exact ⟨rfl, rfl⟩
  | cons byte rest ih =>
    have hstep : (s.receiveByte id byte).2 = s.setPort id ((s.ports id).rxPut byte) := by
      simp only [receiveByte, if_neg ne]
    have := ih (s.receiveByte id byte).2
    rw [hstep] at this
    simp only [receiveChunk, hstep]
    rw [this.1, this.2]
    exact ⟨setPort_other s ne.symm _, rfl⟩

/-- A chunk received on port 0 without overflow adds to the ring what the router forwards. -/
theorem receiveChunk_queue (s : Service n) (bytes : List UInt8) (fits : s.ChunkFits bytes) :
    ((s.receiveChunk 0 bytes).2.ports 0).queue =
        (s.ports 0).queue ++ s.router.forwarded bytes ∧
      (s.receiveChunk 0 bytes).2.router = s.router.after bytes := by
  induction bytes generalizing s with
  | nil => exact ⟨(List.append_nil _).symm, rfl⟩
  | cons byte rest ih =>
    obtain ⟨room, fits⟩ := fits
    obtain ⟨hq, hr⟩ := ih _ fits
    simp only [receiveChunk, Router.forwarded, Router.after]
    rw [hq, hr]
    simp only [receiveByte, ↓reduceIte]
    cases hf : (s.router.routePort0Byte byte).forward with
    | false => simp only [Bool.false_eq_true, ↓reduceIte, and_self]
    | true =>
      simp only [↓reduceIte, setPort_router, and_true]
      rw [setPort_self, SerialPort.queue_rxPut_of_room _ _ (room hf), List.append_assoc,
        List.singleton_append]

/-- A read of a prepared port takes a prefix of its ring; nothing comes from polling. -/
theorem readLoop_queue (port : SerialPort n) (pollIn : List UInt8) (size : Nat)
    (ready : port.rxReady = true) :
    (port.readLoop pollIn size).1 ++ (port.readLoop pollIn size).2.queue = port.queue := by
  induction size generalizing port with
  | zero => rfl
  | succ size ih =>
    unfold SerialPort.readLoop
    cases hqueue : port.queue with
    | nil =>
      rw [port.rxGet_of_empty hqueue]
      simp only [ready, or_true, ↓reduceIte, List.nil_append, hqueue]
    | cons byte rest =>
      obtain ⟨hget, hrest⟩ := port.rxGet_of_cons hqueue
      have hready : port.rxGet.2.rxReady = true := by
        unfold SerialPort.rxGet
        split <;> exact ready
      cases hres : port.rxGet with
      | mk got port' =>
        rw [hres] at hget hrest hready
        simp only at hget hrest hready
        subst hget
        simp only [List.cons_append, ih port' hready, hrest]

/-- A read returns to port 0's readers a prefix of port 0's ring and takes it out of it. -/
theorem step_read_queue (s : Service n) (port : Nat) (pollIn : List UInt8) (size : Nat) :
    (s.step (.read port pollIn size)).1 ++ ((s.step (.read port pollIn size)).2.ports 0).queue =
        (s.ports 0).queue ∧
      (s.step (.read port pollIn size)).2.router = s.router := by
  show (if port = 0 then (s.read port pollIn size).1 else []) ++
      ((s.read port pollIn size).2.ports 0).queue = _ ∧ (s.read port pollIn size).2.router = _
  by_cases hport : port < 2
  · by_cases hready : ¬ (s.ports ⟨port, hport⟩).hasDev ∨ ¬ (s.ports ⟨port, hport⟩).prepared ∨
        size = 0 ∨ ¬ (s.ports ⟨port, hport⟩).deviceIsReady
    · have hread : s.read port pollIn size = ([], s) := by
        unfold read
        rw [dif_pos hport, if_pos hready]
      rw [hread, ite_self]
      exact ⟨rfl, rfl⟩
    · have hread : s.read port pollIn size =
          (((s.ports ⟨port, hport⟩).readLoop pollIn size).1,
            s.setPort ⟨port, hport⟩ ((s.ports ⟨port, hport⟩).readLoop pollIn size).2) := by
        unfold read
        rw [dif_pos hport, if_neg hready]
      simp only [not_or, not_not] at hready
      rw [hread]
      refine ⟨?_, rfl⟩
      by_cases hzero : port = 0
      · subst hzero
        have hloop := readLoop_queue (s.ports 0) pollIn size
          ((s.ports 0).rxReady_of_prepared hready.2.1)
        rw [if_pos rfl]
        show ((s.ports 0).readLoop pollIn size).1 ++
          ((s.setPort 0 ((s.ports 0).readLoop pollIn size).2).ports 0).queue = _
        rw [setPort_self, hloop]
      · have hne : (0 : Fin 2) ≠ ⟨port, hport⟩ := fun h => hzero (congrArg Fin.val h).symm
        rw [if_neg hzero, List.nil_append]
        exact congrArg SerialPort.queue (setPort_other s hne _)
  · have hread : s.read port pollIn size = ([], s) := by
      unfold read
      rw [dif_neg hport]
    rw [hread, ite_self]
    exact ⟨rfl, rfl⟩

/-- What the readers of port 0 have seen, and what they can still read, is what the ring held
before followed by what the router forwards of the received stream. -/
theorem run_returned (s : Service n) (events : List SerialEvent) (fits : s.Fits events) :
    (s.run events).1 ++ ((s.run events).2.ports 0).queue =
      (s.ports 0).queue ++ s.router.forwarded (received events) := by
  induction events generalizing s with
  | nil => exact (List.append_nil _).symm
  | cons event rest ih =>
    cases event with
    | fifo id chunks =>
      obtain ⟨hfits, hrest⟩ := fits
      simp only [run, received]
      rw [List.append_assoc, ih _ hrest]
      show [] ++ _ = _
      simp only [List.nil_append, step, drainFifo_eq]
      by_cases hid : id = 0
      · subst hid
        obtain ⟨hq, hr⟩ := receiveChunk_queue s _ (hfits rfl)
        rw [hq, hr, if_pos rfl, Router.forwarded_append, List.append_assoc]
      · obtain ⟨hp, hr⟩ := receiveChunk_other s hid (fifoBytes chunks)
        rw [hp, hr, if_neg hid, List.nil_append]
    | read port pollIn size =>
      obtain ⟨hq, hr⟩ := step_read_queue s port pollIn size
      simp only [run, received]
      rw [List.append_assoc, ih _ fits, ← List.append_assoc, hq, hr]

/-- During a transfer, which starts by flushing the receive ring of port 0, the readers of port 0
see every received byte, in order, if and only if the router is not collecting a control line when
the stream begins and the stream has no `@` at a line start. This is for every split into FIFO
reads, every interleaving with readers, and every state of the router, as long as the ring does
not overflow. -/
theorem transfer_bytes_intact_iff (s : Service n) (events : List SerialEvent)
    (fits : (s.flushRx 0).Fits events) :
    ((s.flushRx 0).run events).1 ++ (((s.flushRx 0).run events).2.ports 0).queue =
        received events ↔
      s.router.Transparent (received events) := by
  have hflush : ((s.flushRx 0).ports 0).queue = [] := by
    unfold flushRx
    rw [setPort_self, SerialPort.queue_rxClear]
  rw [run_returned _ _ fits, hflush, List.nil_append]
  exact s.router.forwarded_eq_iff _

/-- A service with both ports up and empty rings, the way it is when the command that starts a
transfer arrives. -/
def idle : Service 256 :=
  { ports := fun _ =>
      { rxHead := 0, rxTail := 0, rxBuffer := fun _ => 0, isCdc := false, rxReady := true,
        prepared := true, hasDev := true, deviceIsReady := true, rxReady_of_prepared := fun h => h }
    router := Router.init }

/-- The service after the line `@RTBUS:DFU=APP` with its CR and LF. -/
def afterDfuCommand : Service 256 :=
  (idle.receiveChunk port0
    [0x40, 0x52, 0x54, 0x42, 0x55, 0x53, 0x3a, 0x44, 0x46, 0x55, 0x3d, 0x41, 0x50, 0x50, cr, lf]).2

/-- The first bytes of a data block whose image bytes contain an LF followed by an `@`. -/
def blockWithControlStart : List SerialEvent :=
  [.fifo port0 [[0x02, 0x01, 0xfe, lf, at_, 0x12, 0x34]], .read 0 [] 1024]

/-- A transfer started by the DFU command loses the rest of a block from an LF, `@` pair on, with
a ring that never fills. -/
theorem transfer_loses_bytes :
    (afterDfuCommand.flushRx 0).Fits blockWithControlStart ∧
    received blockWithControlStart = [0x02, 0x01, 0xfe, lf, at_, 0x12, 0x34] ∧
    ((afterDfuCommand.flushRx 0).run blockWithControlStart).1 = [0x02, 0x01, 0xfe, lf] ∧
    (((afterDfuCommand.flushRx 0).run blockWithControlStart).2.ports 0).queue = [] := by
  decide

/-- The first bytes of a data block without such a pair. -/
def plainBlock : List SerialEvent :=
  [.fifo port0 [[0x02, 0x01], [0xfe, at_, lf]], .read 0 [] 2, .fifo port0 [[0x12]], .read 0 [] 1024]

/-- The same transfer delivers a block without such a pair whole. -/
theorem transfer_delivers_plainBlock :
    (afterDfuCommand.flushRx 0).Fits plainBlock ∧
    ((afterDfuCommand.flushRx 0).run plainBlock).1 ++
        (((afterDfuCommand.flushRx 0).run plainBlock).2.ports 0).queue =
      [0x02, 0x01, 0xfe, at_, lf, 0x12] := by
  have fits : (afterDfuCommand.flushRx 0).Fits plainBlock := by decide
  have transparent : afterDfuCommand.router.Transparent (received plainBlock) :=
    .inr (by decide)
  exact ⟨fits, (transfer_bytes_intact_iff afterDfuCommand plainBlock fits).mpr transparent⟩

end Service

end Rtbus.Serial
