import Rtbus.Cli.Dfu
import Rtbus.Native.Frames
import Rtbus.Native.Loading
import Rtbus.Native.Stop
import Rtbus.Ymodem.Safety

/-!
# The upgrade

The application runs from the component slot, which an upgrade erases and writes. `Platform` puts the
runtime and its application thread together with the image store and with `rtbus_cli_dfu_handler`,
which is cut at every operation of `rtbus_ymodem_recv`: the application thread, and everything else
that the runtime may do, goes on between any two of them.

While a session is open, and whenever the slot is changed, there is no application thread; and the
entry address of a thread comes from a load behind the last change of the slot, whose checks the
slot passes still (`upgrade_exclusive`).
-/

namespace Rtbus.Cli

open Rtbus.Emos Rtbus.Image Rtbus.Native Rtbus.Ymodem

/-- Where `rtbus_cli_dfu_handler` is: not called, behind the stop of the application, in
`rtbus_ymodem_recv`, or behind it. -/
inductive DfuPc
  | idle
  | stopped
  | receiving (p : Recv Outcome)
  | received (ret : Ret)

/-- Accesses that change the component slot. -/
def changesSlot : Access → Bool
  | .write .slot _ _ | .erase .slot => true
  | _ => false

/-- How often the slot was changed. -/
def slotChanges (f : Flash) : Nat := f.log.countP changesSlot

/-- A `native_load` that has returned 0: the entry address, and how often the slot had been changed
before it. -/
structure LoadRecord where
  entry : Option Nat
  changes : Nat

/-- The runtime with its flash. `loaded` is history: the last load that has returned 0. -/
structure Platform where
  system : System
  store : Store
  dfu : DfuPc
  inputEnabled : Bool
  ymodemData : List UInt8
  loaded : Option LoadRecord

/-- The operations of `rtbus_ymodem_recv`, as far as the store is concerned: from the line comes
anything. -/
def storeOps (b : Board) : Prog.Handler surroundings Store
  | .storeBegin imageSize, s, ret, s' => imageStoreBegin b imageSize s = (s', ret)
  | .storeWrite offset data, s, ret, s' => imageStoreWrite b offset data s = (s', ret)
  | .storeFinish status, s, ret, s' => imageStoreFinish b status s = (s', ret)
  | .serialBegin, s, _, s' => s' = s
  | .flushRx, s, _, s' => s' = s
  | .waitHeader, s, _, s' => s' = s
  | .readByte _, s, _, s' => s' = s
  | .readExact _ _, s, _, s' => s' = s
  | .put _, s, _, s' => s' = s

namespace Platform

/-- The native service. -/
def native (s : Platform) : Service := s.system.bus.rest

/-- The native service changed. -/
def setNative (v : Service) (s : Platform) : Platform := { s with system := s.system.setService v }

/-- The history behind a call of `native_load`: a call that returns 0 is recorded with the entry
address it has set, one that fails is not. -/
def recordLoad (m : Machine) (f : Flash) (v : Service) (last : Option LoadRecord) :
    Option LoadRecord :=
  match nativeLoad m f v with
  | (f, v, .ok) => some ⟨v.entry, slotChanges f⟩
  | (_, _, .err _) => last

/-- `native_service_start`, with the native service `v`. It calls `native_load` unless the patch has
the RAM or the thread exists. -/
def startNative (m : Machine) (v : Service) (s : Platform) : Platform :=
  let started := nativeServiceStartFrom m s.store.flash v
  { s.setNative started.2.1 with
    store := { s.store with flash := started.1 }
    loaded :=
      if v.patchHandoff ∨ v.threadId then s.loaded
      else recordLoad m s.store.flash v s.loaded }

/-- `native_service_resume_after_upgrade`. -/
def resumeNative (m : Machine) (s : Platform) : Platform :=
  let stopped := nativeServiceForceStopThread { s.native with patchHandoff := false, apiBusy := 0 }
  let started := s.startNative m stopped
  started.setNative (nativeServiceSuppressConsole false started.native)

/-- The handler behind `native_service_stop_for_upgrade`. -/
def stopReturned (v : Service) (s : Platform) : Ret → Platform
  | .ok => { s.setNative v with dfu := .stopped, inputEnabled := false }
  | .err _ => { s.setNative (nativeServiceSuppressConsole false v) with inputEnabled := true }

/-- The steps of the native service, which `Step` has with the flash. -/
def ofNative : Event → Bool
  | .handoff _ | .resume _ | .start _ => true
  | _ => false

/-- What may happen. -/
inductive Step (m : Machine) (cfg : Config) : Platform → Platform → Prop
  /-- A post, the clock, or a step of `rtbus_process`, which waits for the handler. -/
  | act {s : Platform} {e : Event} {system : System} (other : ofNative e = false)
      (waits : e = .finish → s.dfu = .idle)
      (step : System.step cfg e s.system = some system) : Step m cfg s { s with system := system }
  /-- `rtbus_diagnostics_process` on its `INIT` event. -/
  | start {s : Platform} {call : Call} (handles : s.system.pc = .handling call)
      (task : call.task = .diagnostics) (init : call.ctx.id = sysEvt sysInit) :
      Step m cfg s (s.startNative m s.native)
  /-- `@RTBUS:DFU=APP`. -/
  | stop {s : Platform} {call : Call} {turns : List (Nat × Bool)} {v : Service} {ret : Ret}
      (handles : s.system.pc = .handling call) (task : call.task = .cli) (free : s.dfu = .idle)
      (stop : nativeServiceHandoffRamForPatch turns
        (nativeServiceSuppressConsole true s.native) = some (v, ret)) :
      Step m cfg s (s.stopReturned v ret)
  /-- `READY` is written. -/
  | ready {s : Platform} (stopped : s.dfu = .stopped) :
      Step m cfg s { s with dfu := .receiving (recvStart s.ymodemData) }
  /-- It is not. -/
  | notReady {s : Platform} (stopped : s.dfu = .stopped) :
      Step m cfg s { s.resumeNative m with dfu := .idle, inputEnabled := true }
  /-- `rtbus_ymodem_recv` calls an operation. -/
  | operation {s : Platform} {o : Ymodem.Op} {k : o.Answer → Recv Outcome} {a : o.Answer} {store : Store}
      (receiving : s.dfu = .receiving (.vis o k)) (answer : storeOps m.toBoard o s.store a store) :
      Step m cfg s { s with store := store, dfu := .receiving (k a) }
  /-- A turn of its loop ends. -/
  | again {s : Platform} {v : Locals} (behind : List UInt8)
      (receiving : s.dfu = .receiving (.pure (.inl v))) :
      Step m cfg s { s with dfu := .receiving (turn behind v) }
  /-- It returns. -/
  | returned {s : Platform} {ret : Ret} {v : Locals}
      (receiving : s.dfu = .receiving (.pure (.inr (ret, v)))) :
      Step m cfg s { s with dfu := .received ret, inputEnabled := true, ymodemData := v.data }
  /-- `MODULE STAGED` or `ERROR` is written, and the application resumed. -/
  | resume {s : Platform} {ret : Ret} (received : s.dfu = .received ret) :
      Step m cfg s { s.resumeNative m with dfu := .idle }

/-- After boot nothing runs and no session is open. -/
def Start (s : Platform) : Prop :=
  s.system.Start ∧ s.store.ctx = .zero ∧ s.dfu = .idle ∧ s.inputEnabled = true ∧ s.loaded = none

end Platform

/-! ## The receiver closes its session -/

/-- Between two turns of the receiver: a session is open if the metadata were received. -/
structure Between (v : Locals) (s : Store) : Prop where
  store : v.storeActive = s.ctx.active
  metadata : v.gotMetadata = v.storeActive

/-- What a turn leaves. -/
def TurnEnd : Outcome → Store → Prop := Sum.elim Between fun _ s => s.ctx.active = false

section Receiver

open Prog

variable {b : Board} {v : Locals} {s : Store}

/-- A program that goes on after a byte was written goes on in the same state. -/
theorem wp_put_storeOps {ρ : Type} {byte : UInt8} {p : Recv ρ} {Q : ρ → Store → Prop}
    (h : wp (storeOps b) p Q s) : wp (storeOps b) (put byte >>= fun _ => p) Q s := by
  rw [wp_bind]
  rintro a s' rfl
  exact h

/-- Giving up ends the turn with the session closed. -/
theorem recvAbort_ends (e : Errno) (between : Between v s) :
    wp (storeOps b) (recvAbort e v) TurnEnd s := by
  unfold recvAbort
  split
  · rw [wp_bind]
    intro ret s' hfinish
    have hclosed := imageStoreFinish_closes b (.err e) s
    rw [show imageStoreFinish b (.err e) s = (s', ret) from hfinish] at hclosed
    exact hclosed
  · rename_i hstore
    exact between.store.symm.trans (by simpa using hstore)

/-- An end of transmission is answered, or ends it so. -/
theorem recvEot_ends (between : Between v s) : wp (storeOps b) (recvEot v) TurnEnd s := by
  unfold recvEot
  split
  · exact wp_put_storeOps (wp_put_storeOps between)
  · exact wp_put_storeOps (p := Pure.pure (Sum.inl _)) ⟨between.store, between.metadata⟩

/-- A block 0 opens a session or ends the transfer. -/
theorem recvMetadata_ends (behind : List UInt8) (number : UInt8) (len : Nat) (between : Between v s)
    (noMetadata : v.gotMetadata = false) :
    wp (storeOps b) (recvMetadata behind number len v) TurnEnd s := by
  have inactive : s.ctx.active = false :=
    between.store.symm.trans (between.metadata.symm.trans noMetadata)
  unfold recvMetadata
  split
  · exact wp_put_storeOps between
  · dsimp only
    split
    · exact wp_put_storeOps inactive
    · refine wp_put_storeOps (wp_put_storeOps ?_)
      rw [wp_bind]
      intro ret s' hbegin
      obtain ⟨s₁, ret₁, hbegin₁, _, hok, herr, _⟩ := imageStoreBegin_spec (b := b)
        (ymodemParseFileSize (v.data ++ behind) len) inactive
      obtain ⟨rfl, rfl⟩ := Prod.mk.inj (hbegin₁.symm.trans hbegin)
      cases ret₁ with
      | err e => exact wp_put_storeOps (herr (by simp))
      | ok => exact ⟨(hok rfl).active.symm, rfl⟩

/-- The last block closes the session. -/
theorem recvFinish_ends : wp (storeOps b) (recvFinish v) TurnEnd s := by
  unfold recvFinish
  rw [wp_bind]
  intro ret s' hfinish
  have hclosed := imageStoreFinish_closes b .ok s
  rw [show imageStoreFinish b .ok s = (s', ret) from hfinish] at hclosed
  cases ret with
  | err e => exact wp_put_storeOps hclosed
  | ok => exact wp_put_storeOps hclosed

/-- A data block is written or ends the transfer. -/
theorem recvBlock_ends (number : UInt8) (block : Block) (between : Between v s) :
    wp (storeOps b) (recvBlock number block v) TurnEnd s := by
  unfold recvBlock
  split
  · exact wp_put_storeOps between
  · dsimp only
    rw [wp_bind]
    intro ret s' hwrite
    cases ret with
    | err e =>
      show wp _ (storeFinish (.err e) >>= _) _ _
      rw [wp_bind]
      intro ret₂ s₂ hfinish
      have hclosed := imageStoreFinish_closes b (.err e) s'
      rw [show imageStoreFinish b (.err e) s' = (s₂, ret₂) from hfinish] at hclosed
      exact wp_put_storeOps hclosed
    | ok =>
      have hactive := imageStoreWrite_active (b := b) v.receivedSize
        (block.payload.take (min block.payload.length (v.expectedSize - v.receivedSize))) s
      rw [show imageStoreWrite b v.receivedSize _ s = (s', .ok) from hwrite] at hactive
      exact wp_put_storeOps (p := Pure.pure (Sum.inl _))
        ⟨between.store.trans hactive.symm, between.metadata⟩

/-- So each packet ends the turn. -/
theorem recvPacket_ends (behind : List UInt8) (number : UInt8) (block : Block)
    (between : Between v s) : wp (storeOps b) (recvPacket behind number block v) TurnEnd s := by
  have between' : Between { v with data := receiveInto v.data block.payload } s :=
    ⟨between.store, between.metadata⟩
  unfold recvPacket
  dsimp only
  split
  · rename_i noMetadata
    exact recvMetadata_ends behind number block.payload.length between' noMetadata
  · split
    · exact recvFinish_ends
    · exact recvBlock_ends number block between'

/-- And so does whatever comes as a header. -/
theorem recvHeader_ends (behind : List UInt8) (header : UInt8) (between : Between v s) :
    wp (storeOps b) (recvHeader behind header v) TurnEnd s := by
  unfold recvHeader
  split
  · exact recvAbort_ends _ between
  · split
    · exact recvEot_ends between
    · rw [wp_bind]
      unfold readPacket
      split
      · exact wp_put_storeOps between
      · rename_i len _
        rw [wp_bind]
        refine (wp_perform _ _ _).mpr ?_
        rintro r s' rfl
        cases r with
        | error e => exact wp_put_storeOps between
        | ok packet =>
          dsimp only
          rw [wp_pure]
          cases checkPacket len packet with
          | error e => exact wp_put_storeOps between
          | ok read => exact recvPacket_ends behind read.1 ⟨header, packet, read.2⟩ between

/-- Whatever comes from the line, a turn leaves a session open if it has received the metadata, or
the function returns and none is open. -/
theorem turn_ends (behind : List UInt8) (between : Between v s) :
    wp (storeOps b) (turn behind v) TurnEnd s := by
  unfold turn readHeader
  rw [wp_bind]
  split
  · refine (wp_perform _ _ _).mpr ?_
    rintro r s' rfl
    cases r with
    | error e => exact recvAbort_ends e between
    | ok header => exact recvHeader_ends behind header between
  · refine (wp_perform _ _ _).mpr ?_
    rintro r s' rfl
    cases r with
    | error e => exact recvAbort_ends e between
    | ok header => exact recvHeader_ends behind header between

/-- Up to its loop the receiver opens no session. -/
theorem recvStart_ends {data : List UInt8} (inactive : s.ctx.active = false) :
    wp (storeOps b) (recvStart data) TurnEnd s := by
  unfold recvStart
  rw [wp_bind]
  refine (wp_perform _ _ _).mpr ?_
  rintro ret s' rfl
  cases ret with
  | err e => exact inactive
  | ok =>
    dsimp only
    rw [wp_bind]
    refine (wp_perform _ _ _).mpr ?_
    rintro _ s₁ rfl
    exact ⟨inactive.symm, rfl⟩

end Receiver

/-! ## What a load reads, and what the other steps leave alone -/

/-- Calls that change no slot are not counted. -/
theorem slotChanges_of_log {f f' : Flash}
    (log : ∃ xs, f'.log = f.log ++ xs ∧ ∀ x ∈ xs, changesSlot x = false) :
    slotChanges f' = slotChanges f := by
  obtain ⟨xs, hlog, hall⟩ := log
  have hzero : xs.countP changesSlot = 0 :=
    List.countP_eq_zero.mpr fun x hx => by rw [hall x hx]; exact Bool.false_ne_true
  unfold slotChanges
  rw [hlog, List.countP_append, hzero, Nat.add_zero]

/-- A start reads the slot. Either it calls no `native_load` and changes nothing, or there was no
thread before it, and there is one behind it if and only if its `native_load` has returned 0. -/
theorem nativeServiceStartFrom_spec (m : Machine) (f : Flash) (v : Service) : ∃ f' v' ret,
    nativeServiceStartFrom m f v = (f', v', ret) ∧
      f.Reads (fun x => changesSlot x = false) f' ∧
      (((v.patchHandoff = true ∨ v.threadId = true) ∧ v' = v) ∨
        (¬ (v.patchHandoff = true ∨ v.threadId = true) ∧
          (v'.threadId = true → ∃ w, nativeLoad m f v = (f', w, .ok) ∧ v'.entry = w.entry ∧
            Loads m f.slot v w))) := by
  have same : f.Reads (fun x => changesSlot x = false) f :=
    ⟨rfl, rfl, rfl, [], (List.append_nil _).symm, fun _ h => by cases h⟩
  unfold nativeServiceStartFrom
  by_cases hbusy : v.patchHandoff = true
  · rw [if_pos hbusy]
    exact ⟨f, v, _, rfl, same, .inl ⟨.inl hbusy, rfl⟩⟩
  · rw [if_neg hbusy]
    by_cases halive : v.threadId = true
    · rw [if_pos halive]
      exact ⟨f, v, _, rfl, same, .inl ⟨.inr halive, rfl⟩⟩
    · rw [if_neg halive]
      have free : ¬ (v.patchHandoff = true ∨ v.threadId = true) := fun h => h.elim hbusy halive
      obtain ⟨f', w, ret, hload, reads, _, hok, _⟩ :=
        nativeLoad_spec (m := m) (P := fun x => changesSlot x = false) f v fun _ _ _ => rfl
      rw [hload]
      cases ret with
      | err e => exact ⟨f', _, _, rfl, reads, .inr ⟨free, fun h => by cases h⟩⟩
      | ok => exact ⟨f', _, _, rfl, reads, .inr ⟨free, fun _ => ⟨w, rfl, rfl, hok rfl⟩⟩⟩

/-- A step that is not one of the native service leaves the thread and its entry address alone. -/
theorem step_thread {cfg : Config} {s s' : System} {e : Event} (other : Platform.ofNative e = false)
    (h : System.step cfg e s = some s') : s'.bus.rest.threadId = s.bus.rest.threadId ∧
      s'.bus.rest.entry = s.bus.rest.entry := by
  cases e with
  | handoff turns => cases other
  | resume loaded => cases other
  | start loaded => cases other
  | appPost args =>
    have h : s.appPost args = some s' := h
    unfold System.appPost at h
    split at h
    · cases h
      unfold nativeApiRtbusPost
      split
      · split
        · exact ⟨rfl, rfl⟩
        · split <;> exact ⟨rfl, rfl⟩
      · exact ⟨rfl, rfl⟩
    · cases h
  | complete result =>
    have h : s.complete cfg result = some s' := h
    unfold System.complete at h
    split at h
    · split at h
      · cases h
        unfold nativeServiceCompleteResult
        dsimp only [System.setService]
        split
        · exact ⟨rfl, rfl⟩
        · split <;> exact ⟨rfl, rfl⟩
      · cases h
    · cases h
  | _ =>
    obtain ⟨msgq, hrest⟩ := step_rest rfl h
    rw [hrest]
    exact ⟨rfl, rfl⟩

/-- A handler goes on until it finishes. -/
theorem step_handling {cfg : Config} {s s' : System} {e : Event} {call : Call}
    (other : Platform.ofNative e = false) (waits : e ≠ .finish) (hpc : s.pc = .handling call)
    (h : System.step cfg e s = some s') :
    ∃ call', s'.pc = .handling call' ∧ call'.task = call.task := by
  cases e with
  | handoff turns => cases other
  | resume loaded => cases other
  | start loaded => cases other
  | finish => exact absurd rfl waits
  | appPost args =>
    have h : s.appPost args = some s' := h
    unfold System.appPost at h
    split at h <;> cases h
    exact ⟨call, hpc, rfl⟩
  | post args =>
    have h : s.post args = some s' := h
    unfold System.post at h
    split at h <;> cases h <;> exact ⟨call, hpc, rfl⟩
  | postDelay args delayMs =>
    have h : s.postDelay cfg args delayMs = some s' := h
    unfold System.postDelay System.post at h
    split at h
    · split at h <;> cases h <;> exact ⟨call, hpc, rfl⟩
    · split at h <;> cases h
      exact ⟨call, hpc, rfl⟩
  | advance ms =>
    cases h
    exact ⟨call, hpc, rfl⟩
  | process =>
    have h : s.process = some s' := h
    unfold System.process at h
    rw [hpc] at h
    cases h
  | move =>
    have h : s.move = some s' := h
    unfold System.move at h
    rw [hpc] at h
    cases h
  | drain =>
    have h : s.drain = some s' := h
    unfold System.drain at h
    rw [hpc] at h
    cases h
  | dispatch =>
    have h : s.dispatch = some s' := h
    unfold System.dispatch at h
    rw [hpc] at h
    cases h
  | complete result =>
    have h : s.complete cfg result = some s' := h
    unfold System.complete at h
    rw [hpc] at h
    dsimp only at h
    split at h <;> cases h
    exact ⟨_, rfl, rfl⟩

/-! ## The invariant -/

/-- What a step of the receiver has to do yet leaves no session open in the end. -/
def StoreOk (b : Board) (s : Store) : DfuPc → Prop
  | .receiving p => Prog.wp (storeOps b) p TurnEnd s
  | _ => s.ctx.active = false

/-- An entry address that the last `native_load` to return 0 has set, behind the last change of the
slot, which passes the checks of a load that sets this address. -/
structure FromLoad (m : Machine) (f : Flash) (loaded : Option LoadRecord) (entry : Option Nat) :
    Prop where
  isSet : entry ≠ none
  last : loaded = some ⟨entry, slotChanges f⟩
  checked : ∃ v v', Loads m f.slot v v' ∧ v'.entry = entry

namespace Platform

variable {m : Machine} {cfg : Config} {s s' : Platform}

/-- A thread has an entry address from such a load. -/
def ThreadOk (m : Machine) (s : Platform) : Prop :=
  s.native.threadId = true → FromLoad m s.store.flash s.loaded s.native.entry

/-- In the handler there is no thread, and outside of the receiver no session is open. -/
structure Exclusive (m : Machine) (s : Platform) : Prop where
  handler : s.dfu ≠ .idle → (∃ call, s.system.pc = .handling call ∧ call.task = .cli) ∧
    s.native.threadId = false
  store : StoreOk m.toBoard s.store s.dfu
  thread : s.ThreadOk m

/-- A start keeps the thread it finds, or takes the entry address of the load it has called. -/
theorem startNative_thread {v : Service} (h : v.threadId = true →
    FromLoad m s.store.flash s.loaded v.entry) :
    (s.startNative m v).ThreadOk m ∧
      slotChanges (s.startNative m v).store.flash = slotChanges s.store.flash := by
  obtain ⟨f', v', ret, hstart, reads, hcases⟩ := nativeServiceStartFrom_spec m s.store.flash v
  have hchanges := slotChanges_of_log reads.log
  unfold startNative ThreadOk native setNative System.setService
  rw [hstart]
  refine ⟨fun alive => ?_, hchanges⟩
  dsimp only at alive ⊢
  rcases hcases with ⟨noLoad, rfl⟩ | ⟨free, loads⟩
  · rw [if_pos noLoad]
    obtain ⟨isSet, last, checked⟩ := h alive
    exact ⟨isSet, last.trans (by rw [hchanges]), by rw [reads.slot]; exact checked⟩
  · rw [if_neg free]
    obtain ⟨w, hload, hentry, hloads⟩ := loads alive
    refine ⟨fun hnone => ?_, ?_, v, w, ?_, hentry.symm⟩
    · rw [hentry, hloads.entry] at hnone
      cases hnone
    · unfold recordLoad
      rw [hload, hentry]
    · rw [reads.slot]
      exact hloads

/-- The native service that resumes has a thread for the slot as it is, or none. -/
theorem resumeNative_thread : (s.resumeNative m).ThreadOk m ∧
    slotChanges (s.resumeNative m).store.flash = slotChanges s.store.flash :=
  startNative_thread (s := s) (m := m)
    (v := nativeServiceForceStopThread { s.native with patchHandoff := false, apiBusy := 0 })
    fun h => by cases h

/-- A stop that succeeds leaves no thread, and one that fails leaves it as it was. -/
theorem handoff_thread {turns : List (Nat × Bool)} {v v' : Service} {ret : Ret}
    (h : nativeServiceHandoffRamForPatch turns v = some (v', ret)) :
    (ret = .ok → v'.threadId = false) ∧
      (ret ≠ .ok → v'.threadId = v.threadId ∧ v'.entry = v.entry) := by
  rcases handoff_cases h with ⟨none_, hdone⟩ | ⟨_, hdone | hdone⟩ <;> cases hdone
  · exact ⟨fun _ => none_, fun h => absurd rfl h⟩
  · exact ⟨fun _ => rfl, fun h => absurd rfl h⟩
  · exact ⟨fun h => (by cases h), fun _ => ⟨rfl, rfl⟩⟩

/-- Every step keeps the invariant. -/
theorem Exclusive.step (h : s.Exclusive m) (step : Step m cfg s s') : s'.Exclusive m := by
  cases step with
  | @act e system other waits step =>
    obtain ⟨hthread, hentry⟩ := step_thread other step
    refine ⟨fun busy => ?_, h.store, fun alive => ?_⟩
    · obtain ⟨⟨call, hpc, htask⟩, hnone⟩ := h.handler busy
      obtain ⟨call', hpc', htask'⟩ :=
        step_handling other (fun hfinish => busy (waits hfinish)) hpc step
      exact ⟨⟨call', hpc', htask'.trans htask⟩, hthread.trans hnone⟩
    · show FromLoad m s.store.flash s.loaded system.bus.rest.entry
      rw [hentry]
      exact h.thread (hthread.symm.trans alive)
  | @start call handles task init =>
    have hidle : s.dfu = .idle := by
      by_contra busy
      obtain ⟨⟨call', hpc, htask⟩, _⟩ := h.handler busy
      rw [handles] at hpc
      cases hpc
      rw [task] at htask
      cases htask
    obtain ⟨hthread, _⟩ := startNative_thread (m := m) h.thread
    refine ⟨fun busy => absurd hidle busy, ?_, hthread⟩
    have hstore := h.store
    show StoreOk m.toBoard _ s.dfu
    rw [hidle] at hstore ⊢
    exact hstore
  | @stop call turns v ret handles task free stop =>
    obtain ⟨hok, herr⟩ := handoff_thread stop
    have hstore := h.store
    cases ret with
    | ok =>
      rw [free] at hstore
      exact ⟨fun _ => ⟨⟨call, handles, task⟩, hok rfl⟩, hstore,
        fun alive => absurd ((hok rfl).symm.trans alive) Bool.false_ne_true⟩
    | err e =>
      obtain ⟨hthread, hentry⟩ := herr (by simp)
      refine ⟨fun busy => absurd free busy, hstore, fun alive => ?_⟩
      show FromLoad m s.store.flash s.loaded v.entry
      rw [hentry]
      exact h.thread (hthread.symm.trans alive)
  | ready stopped =>
    have hstore := h.store
    rw [stopped] at hstore
    obtain ⟨hcall, hnone⟩ := h.handler (fun h => by rw [stopped] at h; cases h)
    refine ⟨fun _ => ⟨hcall, hnone⟩, ?_, fun alive => absurd (hnone.symm.trans alive)
      Bool.false_ne_true⟩
    exact recvStart_ends hstore
  | notReady stopped =>
    have hstore := h.store
    rw [stopped] at hstore
    exact ⟨fun busy => absurd rfl busy, hstore, resumeNative_thread.1⟩
  | @operation o k a store receiving answer =>
    have hstore := h.store
    rw [receiving] at hstore
    obtain ⟨hcall, hnone⟩ := h.handler (fun h => by rw [receiving] at h; cases h)
    exact ⟨fun _ => ⟨hcall, hnone⟩, hstore a store answer,
      fun alive => absurd (hnone.symm.trans alive) Bool.false_ne_true⟩
  | again behind receiving =>
    have hstore := h.store
    rw [receiving] at hstore
    obtain ⟨hcall, hnone⟩ := h.handler (fun h => by rw [receiving] at h; cases h)
    exact ⟨fun _ => ⟨hcall, hnone⟩, turn_ends behind hstore,
      fun alive => absurd (hnone.symm.trans alive) Bool.false_ne_true⟩
  | returned receiving =>
    have hstore := h.store
    rw [receiving] at hstore
    obtain ⟨hcall, hnone⟩ := h.handler (fun h => by rw [receiving] at h; cases h)
    exact ⟨fun _ => ⟨hcall, hnone⟩, hstore,
      fun alive => absurd (hnone.symm.trans alive) Bool.false_ne_true⟩
  | resume received =>
    have hstore := h.store
    rw [received] at hstore
    exact ⟨fun busy => absurd rfl busy, hstore, resumeNative_thread.1⟩

/-- Only the operations of the receiver change the slot, and none of them touches the thread. -/
theorem Exclusive.changes (h : s.Exclusive m) (step : Step m cfg s s')
    (changed : slotChanges s'.store.flash ≠ slotChanges s.store.flash) :
    s.native.threadId = false ∧ s'.native.threadId = false := by
  cases step with
  | operation receiving answer =>
    obtain ⟨_, hnone⟩ := h.handler (fun h => by rw [receiving] at h; cases h)
    exact ⟨hnone, hnone⟩
  | start handles task init => exact absurd (startNative_thread h.thread).2 changed
  | @stop call turns v ret handles task free stop =>
    cases ret with
    | ok => exact absurd rfl changed
    | err e => exact absurd rfl changed
  | notReady stopped => exact absurd resumeNative_thread.2 changed
  | resume received => exact absurd resumeNative_thread.2 changed
  | _ => exact absurd rfl changed

/-- In every run of the runtime, whatever comes from the line, whatever the flash and the stop of
the application do: while a session of the image store is open there is no application thread, and
there is none when the slot is erased or written; and when there is one, its entry address was set
by the last `native_load` that has returned 0, behind the last change of the slot, and the slot passes
the checks of a load that sets this address. -/
theorem upgrade_exclusive (m : Machine) (cfg : Config) {s : Platform}
    (h : Run.Reachable Start (fun s (_ : Unit) s' => Step m cfg s s') s) :
    (s.store.ctx.active = true → s.native.threadId = false) ∧
    (∀ s', Step m cfg s s' → slotChanges s'.store.flash ≠ slotChanges s.store.flash →
      s.native.threadId = false ∧ s'.native.threadId = false) ∧
    (s.native.threadId = true → s.native.entry ≠ none ∧
      s.loaded = some ⟨s.native.entry, slotChanges s.store.flash⟩ ∧
      ∃ v v', Loads m s.store.flash.slot v v' ∧ v'.entry = s.native.entry) := by
  have inv : s.Exclusive m := by
    refine h.invariant (I := Exclusive m) ?_ fun s _ s' inv step => inv.step step
    intro s start
    obtain ⟨⟨b, poolAddr, poolSize, entryTbl, range, hboot, hinit, _⟩, hctx, hdfu, _⟩ := start
    obtain ⟨_, _, hrest⟩ := rtbusInit_tracks range hinit
    rw [hboot] at hrest
    have hnone : s.native.threadId = false := congrArg Service.threadId hrest
    refine ⟨fun busy => absurd hdfu busy, ?_, fun alive => absurd (hnone.symm.trans alive)
      Bool.false_ne_true⟩
    rw [hdfu]
    show s.store.ctx.active = false
    rw [hctx]
    rfl
  refine ⟨fun active => ?_, fun s' step changed => inv.changes step changed, fun alive =>
    have fromLoad := inv.thread alive
    ⟨fromLoad.isSet, fromLoad.last, fromLoad.checked⟩⟩
  cases hdfu : s.dfu with
  | receiving p =>
    exact (inv.handler (fun h => by rw [hdfu] at h; cases h)).2
  | _ =>
    have hstore := inv.store
    rw [hdfu] at hstore
    exact absurd (hstore.symm.trans active) Bool.false_ne_true

/-! ## An application that runs -/

/-- The steps that may be taken at any time. -/
def isFree : Event → Bool
  | .handoff _ | .resume _ | .start _ | .finish => false
  | _ => true

/-- Such steps of the system are ones of the platform. -/
theorem reachable_acts {es : List Event} {system : System}
    (h : Run.Reachable Start (fun s (_ : Unit) s' => Step m cfg s s') s)
    (run : s.system.checkedRun (fun _ e _ => isFree e) cfg es = some system) :
    Run.Reachable Start (fun s (_ : Unit) s' => Step m cfg s s') { s with system := system } := by
  induction es generalizing s with
  | nil =>
    cases run
    exact h
  | cons e es ih =>
    unfold System.checkedRun at run
    split at run
    · cases run
    · rename_i s₁ hstep
      split at run
      · rename_i hfree
        have other : ofNative e = false := by cases e <;> first | rfl | cases hfree
        have waits : e = .finish → s.dfu = .idle := by
          rintro rfl
          cases hfree
        have step : Step m cfg s { s with system := s₁ } := .act other waits hstep
        exact ih (s := { s with system := s₁ }) (h.step (a := ()) step) run
      · cases run

/-- The platform when the system has booted, with the sample image in the slot. -/
def bootPlatform (system : System) : Platform :=
  { system := system
    store := { ctx := .zero, flash := sampleFlash (sampleSymbols 0x20035004) }
    dfu := .idle, inputEnabled := true, ymodemData := [], loaded := none }

/-- Whether the diagnostics task handles its `INIT` event, and a start creates the thread. -/
def startsThread (s : System) : Bool :=
  (nativeServiceStartFrom sampleMachine (sampleFlash (sampleSymbols 0x20035004))
    s.bus.rest).2.1.threadId &&
    match s.pc with
    | .handling call => decide (call.task = .diagnostics ∧ call.ctx.id = sysEvt sysInit)
    | _ => false

/-- The application is started at boot, from an image that has not been touched since and that a load
takes. -/
theorem boot_exclusive : ∃ s : Platform,
    Run.Reachable Start (fun s (_ : Unit) s' => Step sampleMachine defaultConfig s s') s ∧
      s.native.threadId = true ∧ s.native.entry ≠ none ∧
      s.loaded = some ⟨s.native.entry, slotChanges s.store.flash⟩ ∧
      ∃ v v', Loads sampleMachine s.store.flash.slot v v' ∧ v'.entry = s.native.entry := by
  obtain ⟨s₀, s, start, run, htest⟩ := exists_of_run (fun _ e _ => isFree e) defaultConfig
    (untilDrain ++ [.drain, .dispatch]) startsThread (by decide +kernel)
  obtain ⟨alive, hpc⟩ := Bool.and_eq_true_iff.mp htest
  have booted : Run.Reachable Start (fun s (_ : Unit) s' => Step sampleMachine defaultConfig s s')
      (bootPlatform s) :=
    reachable_acts (s := bootPlatform s₀) (.start ⟨start, rfl, rfl, rfl, rfl⟩) run
  cases hcall : s.pc with
  | handling call =>
    rw [hcall] at hpc
    obtain ⟨task, init⟩ := of_decide_eq_true hpc
    have reach := booted.step (a := ()) (.start hcall task init)
    exact ⟨_, reach, alive, (upgrade_exclusive sampleMachine defaultConfig reach).2.2 alive⟩
  | _ =>
    rw [hcall] at hpc
    cases hpc

end Platform

end Rtbus.Cli
