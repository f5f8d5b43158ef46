import Mathlib.Data.List.Nodup
import Rtbus.Base.Tickets
import Rtbus.Emos.Init

/-!
# Delayed events

What happens to an event between `rtbus_post_delay` and the task queue. A book is kept of the slots:
each accepted delayed post gets a ticket with the real time, the delay and the arguments, and each
post of `rtbus_move_due_events` that `emos_post` takes is noted with the real time and the ticket of
its slot. The runs are those of the bus, with delayed posts, clock advances and calls of
`rtbus_process` in any order, in which hook and handlers do the same.

Whether an event is due is the sign of a 32-bit difference, so a delay of more than 2^31 milliseconds
looks like a time that is long past: such an event is moved by the next call. All other events are
moved once, with what was posted, at their time or later, and stay in their slot until then.
-/

namespace Rtbus.Emos

open Rtbus.Pool Rtbus.Tiling Rtbus.Tickets

variable {H X : Type}

/-- An accepted delayed post: the real time, the delay, and what was posted. -/
structure Delay where
  time : Nat
  delayMs : UInt32
  args : PostArgs

/-- A post out of a slot: the real time, and what was posted. -/
structure Move where
  time : Nat
  args : PostArgs

/-- The book of the slots. -/
abbrev Ledger := Book Delay Move

/-- The posts that the loop of `rtbus_move_due_events` makes and `emos_post` takes, each with its slot;
the first slot is `i`. -/
def movedFrom (nowMs : UInt32) : List DelayedEvent → Nat → Bus H X → List (Nat × PostArgs)
  | [], _, _ => []
  | event :: rest, i, s =>
    if event.used = false ∨ dueReached nowMs event.dueMs = false then movedFrom nowMs rest (i + 1) s
    else
      match emosPost s event.args with
      | some (s, .ok) => (i, event.args) :: movedFrom nowMs rest (i + 1) s
      | _ => []

/-- The posts of a call of `rtbus_move_due_events`. -/
def moved (s : Bus H X) : List (Nat × PostArgs) := movedFrom (uptime32 s) s.delayed 0 s

/-- The book after these posts. -/
def noteMoves (now : Nat) (b : Ledger) (moves : List (Nat × PostArgs)) : Ledger :=
  moves.foldl (fun b m => b.take m.1 ⟨now, m.2⟩) b

/-- The book after an act with its result: a delayed post that returned 0 is in the first free slot. -/
def noteAct (s : Bus H Ledger) : Act → Ret → Ledger
  | .postDelay args delayMs, .ok =>
    if delayMs = 0 then s.rest
    else
      match s.delayed.findIdx? (fun event => !event.used) with
      | none => s.rest
      | some i => s.rest.put i ⟨s.uptime, delayMs, args⟩
  | _, _ => s.rest

variable (payloadMax : Nat)

/-- An act, with the book. -/
def Act.watch (a : Act) (s : Bus H Ledger) : Option (Bus H Ledger) :=
  match a.perform payloadMax s with
  | none => none
  | some (s', ret) => some { s' with rest := noteAct s a ret }

/-- Acts one after the other, with the book. -/
def watchActs : List Act → Bus H Ledger → Option (Bus H Ledger)
  | [], s => some s
  | a :: as, s =>
    match a.watch payloadMax s with
    | none => none
    | some s => watchActs as s

/-- An operation, with the book. The posts of `rtbus_move_due_events` come first. -/
def Op.watch : Op → Bus H Ledger → Option (Bus H Ledger)
  | .act a, s => a.watch payloadMax s
  | .process hook handler, s =>
    (rtbusProcess (fun s => (watchActs payloadMax hook s).map fun s => (s, .ok))
      (fun _ _ s => watchActs payloadMax handler s)
      { s with rest := noteMoves s.uptime s.rest (moved s) }).map Prod.fst

/-- A bus whose slots are free. -/
def Bus.Blank (s : Bus H Ledger) : Prop :=
  (∀ event ∈ s.delayed, event.used = false) ∧ s.rest = Book.blank s.delayed.length

/-- The states of all runs from a bus whose slots are free. -/
abbrev Bus.Watched : Bus H Ledger → Prop :=
  Run.Reachable Bus.Blank fun s op s' => Op.watch payloadMax op s = some s'

variable {payloadMax}

/-- A slot holds what was posted, with the time it is due. -/
def Stores (event : DelayedEvent) (t : Delay) : Prop :=
  event.args.ctx = t.args.ctx ∧ event.dueMs = UInt32.ofNat t.time + t.delayMs

/-- An accepted event: it is posted to its task not before its time, with task id, context id and
payload as they were, and not twice; and it is in a slot as long as it has not been. -/
structure Honoured (s : Bus H Ledger) (k : Nat) (t : Delay) : Prop where
  notEarly : ∀ m, (some k, m) ∈ s.rest.taken → t.time + t.delayMs.toNat ≤ m.time
  same : ∀ m, (some k, m) ∈ s.rest.taken → m.args.ctx = t.args.ctx
  once : (s.rest.taken.map Prod.fst).count (some k) ≤ 1
  stored : (∀ m, (some k, m) ∉ s.rest.taken) → ∃ (i : Nat) (event : DelayedEvent),
    s.delayed[i]? = some event ∧ event.used = true ∧ s.rest.held[i]? = some (some k) ∧
      Stores event t

/-! ## The invariant -/

/-- The book matches the slots at some real time: each used slot has a ticket and stores what it was
issued for, free slots have none, and what was taken kept to its time unless its delay was long. -/
structure Holds (slots : List DelayedEvent) (b : Ledger) (now : Nat) : Prop where
  accounted : b.Accounted
  length : b.held.length = slots.length
  free : ∀ (i : Nat) event, slots[i]? = some event → event.used = false → b.held[i]? = some none
  used : ∀ (i : Nat) event, slots[i]? = some event → event.used = true →
    ∃ k t, b.held[i]? = some (some k) ∧ b.issued[k]? = some t ∧ Stores event t ∧ t.time ≤ now
  moves : ∀ x ∈ b.taken, ∃ k t, x.1 = some k ∧ b.issued[k]? = some t ∧
    x.2.args.ctx = t.args.ctx ∧
    (t.delayMs.toNat ≤ 2 ^ 31 → t.time + t.delayMs.toNat ≤ x.2.time)

/-- A due time that is at most 2^31 milliseconds after the post is not reached early. -/
theorem not_early_of_due {now time : Nat} {delayMs : UInt32} (short : delayMs.toNat ≤ 2 ^ 31)
    (posted : time ≤ now)
    (due : dueReached (UInt32.ofNat now) (UInt32.ofNat time + delayMs) = true) :
    time + delayMs.toNat ≤ now := by
  unfold dueReached at due
  have hlt := of_decide_eq_true due
  rw [UInt32.toNat_sub, UInt32.toNat_add, UInt32.toNat_ofNat', UInt32.toNat_ofNat'] at hlt
  omega

/-- A later due time is reached at once. -/
theorem due_of_long {time : Nat} {delayMs : UInt32} (long : 2 ^ 31 < delayMs.toNat) :
    dueReached (UInt32.ofNat time) (UInt32.ofNat time + delayMs) = true := by
  have hlt := delayMs.toNat_lt
  unfold dueReached
  refine decide_eq_true ?_
  rw [UInt32.toNat_sub, UInt32.toNat_add, UInt32.toNat_ofNat']
  omega

namespace Holds

variable {slots : List DelayedEvent} {b : Ledger} {now : Nat}

theorem later (h : Holds slots b now) {now' : Nat} (le : now ≤ now') : Holds slots b now' := by
  refine { h with used := fun i event hi hused => ?_ }
  obtain ⟨k, t, hheld, hissued, hstores, htime⟩ := h.used i event hi hused
  exact ⟨k, t, hheld, hissued, hstores, Nat.le_trans htime le⟩

/-- A delayed post goes into a free slot. -/
theorem put (h : Holds slots b now) {i : Nat}
    (free : slots.findIdx? (fun event => !event.used) = some i) {event : DelayedEvent} {t : Delay}
    (hused : event.used = true) (stores : Stores event t) (time : t.time = now) :
    Holds (slots.set i event) (b.put i t) now := by
  obtain ⟨hi, hfree, _⟩ := List.findIdx?_eq_some_iff_getElem.mp free
  have hnone : b.held[i]? = some none :=
    h.free i slots[i] (List.getElem?_eq_getElem hi) (by simpa using hfree)
  have hlen : i < b.held.length := h.length ▸ hi
  have hold : ∀ {k : Nat} {t' : Delay}, b.issued[k]? = some t' →
      (b.issued ++ [t])[k]? = some t' := fun hk => by
    rw [List.getElem?_append_left (List.getElem?_eq_some_iff.mp hk).1]
    exact hk
  refine ⟨h.accounted.put hnone t, ?_, fun j e hj hu => ?_, fun j e hj hu => ?_, fun x hx => ?_⟩
  · show (b.held.set i _).length = _
    rw [List.length_set, List.length_set, h.length]
  · by_cases hij : i = j
    · subst hij
      rw [List.getElem?_set_self hi] at hj
      cases hj
      exact absurd (hused.symm.trans hu) nofun
    · rw [List.getElem?_set_ne hij] at hj
      show (b.held.set i _)[j]? = _
      rw [List.getElem?_set_ne hij]
      exact h.free j e hj hu
  · show ∃ k t', (b.held.set i _)[j]? = some (some k) ∧ (b.issued ++ [t])[k]? = some t' ∧ _
    by_cases hij : i = j
    · subst hij
      rw [List.getElem?_set_self hi] at hj
      cases hj
      refine ⟨b.issued.length, t, List.getElem?_set_self hlen, ?_, stores, Nat.le_of_eq time⟩
      rw [List.getElem?_append_right (Nat.le_refl _), Nat.sub_self]
      rfl
    · rw [List.getElem?_set_ne hij] at hj
      obtain ⟨k, t', hheld, hissued, hrest⟩ := h.used j e hj hu
      exact ⟨k, t', by rw [List.getElem?_set_ne hij]; exact hheld, hold hissued, hrest⟩
  · obtain ⟨k, t', hk, hissued, hrest⟩ := h.moves x hx
    exact ⟨k, t', hk, hold hissued, hrest⟩

/-- An event that is due is posted and leaves its slot. -/
theorem take (h : Holds slots b now) {i : Nat} {event : DelayedEvent}
    (hi : slots[i]? = some event) (hused : event.used = true)
    (due : dueReached (UInt32.ofNat now) event.dueMs = true) :
    Holds (slots.set i DelayedEvent.zero) (b.take i ⟨now, event.args⟩) now := by
  obtain ⟨k, t, hheld, hissued, ⟨hctx, hdue⟩, htime⟩ := h.used i event hi hused
  have hlt := (List.getElem?_eq_some_iff.mp hi).1
  have hlen : i < b.held.length := h.length ▸ hlt
  refine ⟨h.accounted.take hheld _, ?_, fun j e hj hu => ?_, fun j e hj hu => ?_, fun x hx => ?_⟩
  · show (b.held.set i _).length = _
    rw [List.length_set, List.length_set, h.length]
  · show (b.held.set i _)[j]? = _
    by_cases hij : i = j
    · subst hij
      exact List.getElem?_set_self hlen
    · rw [List.getElem?_set_ne hij] at hj ⊢
      exact h.free j e hj hu
  · by_cases hij : i = j
    · subst hij
      rw [List.getElem?_set_self hlt] at hj
      cases hj
      cases hu
    · rw [List.getElem?_set_ne hij] at hj
      obtain ⟨k', t', hheld', hrest⟩ := h.used j e hj hu
      refine ⟨k', t', ?_, hrest⟩
      show (b.held.set i _)[j]? = _
      rw [List.getElem?_set_ne hij]
      exact hheld'
  · rcases List.mem_append.mp hx with hx | hx
    · exact h.moves x hx
    · rw [List.mem_singleton.mp hx]
      refine ⟨k, t, Book.ticket_of_held hheld, hissued, hctx, fun short => ?_⟩
      exact not_early_of_due short htime (hdue ▸ due)

/-- The loop of `rtbus_move_due_events`. -/
theorem moveDueFrom {nowMs : UInt32} (clock : nowMs = UInt32.ofNat now) {pre rest rest' : List DelayedEvent}
    {s s' : Bus H X} {ret : Ret} (h : Holds (pre ++ rest) b now)
    (call : Emos.moveDueFrom nowMs rest s = some (s', rest', ret)) :
    SameSlots s s' ∧
      Holds (pre ++ rest') (noteMoves now b (movedFrom nowMs rest pre.length s)) now := by
  induction rest generalizing s b pre rest' with
  | nil =>
    cases call
    exact ⟨.refl _, h⟩
  | cons event rest ih =>
    have hlen : pre.length + 1 = (pre ++ [event]).length := by simp
    unfold Emos.moveDueFrom at call
    unfold movedFrom
    by_cases hdue : event.used = false ∨ dueReached nowMs event.dueMs = false
    · rw [if_pos hdue] at call ⊢
      cases hrest : Emos.moveDueFrom nowMs rest s with
      | none =>
        rw [hrest] at call
        cases call
      | some r =>
        obtain ⟨s₁, rest₁, ret₁⟩ := r
        rw [hrest] at call
        cases call
        rw [List.append_cons] at h
        obtain ⟨same, h'⟩ := ih h hrest
        rw [← hlen] at h'
        rw [List.append_cons]
        exact ⟨same, h'⟩
    · rw [if_neg hdue] at call ⊢
      cases hpost : emosPost s event.args with
      | none =>
        rw [hpost] at call
        cases call
      | some r =>
        obtain ⟨s₁, ret₁⟩ := r
        rw [hpost] at call
        have same := emosPost_frame hpost
        cases ret₁ with
        | err e =>
          cases call
          exact ⟨same, h⟩
        | ok =>
          dsimp only at call
          cases hrest : Emos.moveDueFrom nowMs rest s₁ with
          | none =>
            rw [hrest] at call
            cases call
          | some r =>
            obtain ⟨s₂, rest₂, ret₂⟩ := r
            rw [hrest] at call
            cases call
            simp only [not_or, Bool.not_eq_false] at hdue
            have hat : (pre ++ event :: rest)[pre.length]? = some event := by simp
            have h₁ := h.take hat hdue.1 (clock ▸ hdue.2)
            rw [List.set_append_right _ _ (Nat.le_refl _), Nat.sub_self, List.set_cons_zero,
              List.append_cons] at h₁
            obtain ⟨same₂, h₂⟩ := ih h₁ hrest
            rw [show (pre ++ [DelayedEvent.zero]).length = pre.length + 1 by simp] at h₂
            rw [List.append_cons]
            exact ⟨same.trans same₂, h₂⟩

end Holds

/-! ## Steps -/

/-- What is posted out of the slot that a post has filled is what that post was given. -/
theorem PostArgs.delayedEvent_ctx (args : PostArgs) (dueMs : UInt32)
    (given : args.payload = none → args.payloadLen = 0) :
    (args.delayedEvent dueMs given).args.ctx = args.ctx := by
  unfold PostArgs.ctx
  rw [DelayedEvent.args_bytes]
  rfl

theorem rtbusPost_frame {s s' : Bus H X} {args : PostArgs} {ret : Ret}
    (h : rtbusPost s args = some (s', ret)) : SameSlots s s' := by
  unfold rtbusPost at h
  cases hpost : emosPost s args with
  | none =>
    rw [hpost] at h
    cases h
  | some r =>
    obtain ⟨s₁, ret₁⟩ := r
    have same := emosPost_frame hpost
    rw [hpost] at h
    cases ret₁ with
    | ok =>
      cases h
      exact same
    | err e =>
      cases e with
      | ENOENT =>
        cases h
        exact same
      | _ =>
        cases h
        exact same

/-- An act keeps the invariant. -/
theorem Act.watch_holds {a : Act} {s s' : Bus H Ledger} (h : Holds s.delayed s.rest s.uptime)
    (call : a.watch payloadMax s = some s') : Holds s'.delayed s'.rest s'.uptime := by
  have posted : ∀ {args : PostArgs} {s₁ : Bus H Ledger} {ret : Ret},
      rtbusPost s args = some (s₁, ret) → Holds s₁.delayed s.rest s₁.uptime := by
    intro args s₁ ret hpost
    obtain ⟨hdelayed, huptime, _⟩ := rtbusPost_frame hpost
    rw [hdelayed, huptime]
    exact h
  unfold Act.watch at call
  cases hres : a.perform payloadMax s with
  | none =>
    rw [hres] at call
    cases call
  | some r =>
    obtain ⟨s₁, ret⟩ := r
    rw [hres] at call
    cases call
    cases a with
    | post args =>
      have hpost : rtbusPost s args = some (s₁, ret) := hres
      show Holds s₁.delayed s.rest s₁.uptime
      exact posted hpost
    | advance ms =>
      cases hres
      exact h.later (Nat.le_add_right _ _)
    | postDelay args delayMs =>
      change rtbusPostDelay payloadMax s args delayMs = some (s₁, ret) at hres
      unfold rtbusPostDelay at hres
      split at hres
      · rename_i hzero
        have hnote : noteAct s (.postDelay args delayMs) ret = s.rest := by
          cases ret with
          | ok => exact if_pos hzero
          | err e => rfl
        rw [hnote]
        have hpost : rtbusPost s args = some (s₁, ret) := hres
        show Holds s₁.delayed s.rest s₁.uptime
        exact posted hpost
      · rename_i hzero
        split at hres
        · cases hres
          exact h
        · split at hres
          · cases hres
            exact h
          · cases hfree : s.delayed.findIdx? (fun event => !event.used) with
            | none =>
              rw [hfree] at hres
              cases hres
              exact h
            | some i =>
              rw [hfree] at hres
              cases hres
              have hnote : noteAct s (.postDelay args delayMs) .ok =
                  s.rest.put i ⟨s.uptime, delayMs, args⟩ := by
                unfold noteAct
                dsimp only
                rw [if_neg hzero, hfree]
              rw [hnote]
              exact h.put hfree rfl ⟨PostArgs.delayedEvent_ctx args _ _, rfl⟩ rfl

/-- Acts keep it. -/
theorem watchActs_holds {acts : List Act} {s s' : Bus H Ledger}
    (h : Holds s.delayed s.rest s.uptime) (call : watchActs payloadMax acts s = some s') :
    Holds s'.delayed s'.rest s'.uptime := by
  induction acts generalizing s with
  | nil =>
    cases call
    exact h
  | cons a as ih =>
    unfold watchActs at call
    cases hact : a.watch payloadMax s with
    | none =>
      rw [hact] at call
      cases call
    | some s₁ =>
      rw [hact] at call
      exact ih (Act.watch_holds h hact) call

theorem removeNode_frame {s s' : Bus H X} {p node : Nat} (h : removeNode s p node = some s') :
    SameSlots s s' := by
  unfold removeNode at h
  split at h
  · cases h
  · cases h
    exact ⟨rfl, rfl, rfl⟩

/-- Slots, clock and the rest of the program are as one handler has left them, or as they were. -/
def LeftTo (handle : Handle H X) (s s' : Bus H X) : Prop :=
  SameSlots s s' ∨ ∃ f ctx s₁, handle f ctx s = some s₁ ∧ SameSlots s₁ s'

theorem dispatchFirst_frame {handle : Handle H X} {s s' : Bus H X} {outcome : Outcome H} {p : Nat}
    (h : dispatchFirst handle s p = some (s', outcome)) :
    (¬ ∃ s₁, (s', outcome) = (s₁, .idle)) ∧ LeftTo handle s s' := by
  unfold dispatchFirst at h
  dsimp only at h
  split at h
  · obtain ⟨s₁, hremove, heq⟩ := Option.map_eq_some_iff.mp h
    cases heq
    exact ⟨nofun, .inl (removeNode_frame hremove)⟩
  · rename_i entry _
    cases htask : entry.taskEntry with
    | none =>
      rw [htask] at h
      obtain ⟨s₁, hremove, heq⟩ := Option.map_eq_some_iff.mp h
      cases heq
      exact ⟨nofun, .inl (removeNode_frame hremove)⟩
    | some f =>
      rw [htask] at h
      dsimp only at h
      split at h
      · cases h
      · rename_i s₁ hcall
        obtain ⟨s₂, hremove, heq⟩ := Option.map_eq_some_iff.mp h
        cases heq
        exact ⟨nofun, .inr ⟨f, _, s₁, hcall, removeNode_frame hremove⟩⟩

theorem processQueuedFrom_frame {handle : Handle H X} {s s' : Bus H X} {outcome : Outcome H}
    {left start : Nat} (h : processQueuedFrom handle s left start = some (s', outcome)) :
    (s', outcome) = (s, .idle) ∨
      (¬ ∃ s₁, (s', outcome) = (s₁, .idle)) ∧ LeftTo handle s s' := by
  induction left generalizing start with
  | zero =>
    cases h
    exact .inl rfl
  | succ left ih =>
    unfold processQueuedFrom at h
    split at h
    · exact .inr (dispatchFirst_frame h)
    · exact ih h

/-- The stages behind the hook leave slots and clock to the handler that they call, if any. -/
theorem dispatchOrPoll_frame {handle : Handle H X} {s s' : Bus H X} {outcome : Outcome H}
    (h : dispatchOrPoll handle s = some (s', outcome)) : LeftTo handle s s' := by
  unfold dispatchOrPoll at h
  split at h
  · cases h
  · rename_i s₁ hqueued
    rcases processQueuedFrom_frame hqueued with heq | ⟨hidle, _⟩
    · cases heq
      unfold emosProcessPollEvent at h
      rcases pollFrom_cases handle s s.entryCount 0 with hnone | ⟨entry, f, index, _, _, _, hpoll⟩
      · rw [hnone] at h
        cases h
        exact .inl (.refl s)
      · rw [hpoll] at h
        obtain ⟨s₂, hcall, heq⟩ := Option.map_eq_some_iff.mp h
        cases heq
        exact .inr ⟨f, _, s₂, hcall, rfl, rfl, rfl⟩
    · exact absurd ⟨s₁, rfl⟩ hidle
  · rename_i s₁ outcome₁ hother hqueued
    cases h
    rcases processQueuedFrom_frame hqueued with heq | ⟨_, hleft⟩
    · cases heq
      exact .inl (.refl s)
    · exact hleft

/-- A post does not look at the rest of the program. -/
theorem emosPost_rest (s : Bus H X) (x : X) (args : PostArgs) :
    emosPost { s with rest := x } args =
      (emosPost s args).map fun r => ({ r.1 with rest := x }, r.2) := by
  unfold emosPost
  dsimp only
  split
  · rfl
  · split
    · rfl
    · split
      · rfl
      · split
        · rfl
        · split
          · rfl
          · split
            · rfl
            · split
              · rfl
              · rfl

/-- Nor does the loop over the slots. -/
theorem movedFrom_rest (nowMs : UInt32) (slots : List DelayedEvent) (i : Nat) (s : Bus H X) (x : X) :
    movedFrom nowMs slots i { s with rest := x } = movedFrom nowMs slots i s := by
  induction slots generalizing i s with
  | nil => rfl
  | cons event slots ih =>
    unfold movedFrom
    split
    · exact ih (i + 1) s
    · rw [emosPost_rest]
      cases emosPost s event.args with
      | none => rfl
      | some r =>
        obtain ⟨s₁, ret⟩ := r
        cases ret with
        | ok =>
          dsimp only [Option.map_some]
          rw [ih (i + 1) s₁]
        | err e => rfl

/-- An operation keeps the invariant. -/
theorem Op.watch_holds {op : Op} {s s' : Bus H Ledger} (h : Holds s.delayed s.rest s.uptime)
    (call : op.watch payloadMax s = some s') : Holds s'.delayed s'.rest s'.uptime := by
  cases op with
  | act a => exact Act.watch_holds h call
  | process hook handler =>
    obtain ⟨⟨s₃, outcome⟩, hprocess, rfl⟩ := Option.map_eq_some_iff.mp call
    obtain ⟨b, hb⟩ : ∃ b, noteMoves s.uptime s.rest (moved s) = b := ⟨_, rfl⟩
    rw [hb] at hprocess
    unfold rtbusProcess moveDueEvents at hprocess
    cases hmove : moveDueFrom (uptime32 s) s.delayed { s with rest := b } with
    | none =>
      rw [show uptime32 { s with rest := b } = uptime32 s from rfl, hmove] at hprocess
      cases hprocess
    | some r =>
      obtain ⟨s₁, slots, ret⟩ := r
      rw [show uptime32 { s with rest := b } = uptime32 s from rfl, hmove] at hprocess
      have hpre : Holds ([] ++ s.delayed) s.rest s.uptime := h
      obtain ⟨⟨_, huptime, hrest⟩, h₁⟩ := hpre.moveDueFrom (s := { s with rest := b }) rfl hmove
      have h₁' : Holds slots s₁.rest s₁.uptime := by
        rw [movedFrom_rest] at h₁
        rw [huptime, hrest]
        exact hb ▸ h₁
      cases ret with
      | err e =>
        cases hprocess
        exact h₁'
      | ok =>
        dsimp only at hprocess
        unfold emosProcess at hprocess
        split at hprocess
        · cases hprocess
          exact h₁'
        · dsimp only at hprocess
          cases hhook : watchActs payloadMax hook { s₁ with delayed := slots } with
          | none =>
            rw [hhook] at hprocess
            cases hprocess
          | some s₂ =>
            rw [hhook] at hprocess
            have h₂ : Holds s₂.delayed s₂.rest s₂.uptime :=
              watchActs_holds (s := { s₁ with delayed := slots }) h₁' hhook
            rcases dispatchOrPoll_frame hprocess with
              ⟨hdelayed, huptime, hrest⟩ | ⟨_, _, s₄, hcall, hdelayed, huptime, hrest⟩
            · rw [hdelayed, huptime, hrest]
              exact h₂
            · rw [hdelayed, huptime, hrest]
              exact watchActs_holds h₂ hcall

/-- Every watched bus satisfies the invariant. -/
theorem watched_holds {s : Bus H Ledger} (h : s.Watched payloadMax) :
    Holds s.delayed s.rest s.uptime := by
  refine Run.Reachable.invariant (I := fun s => Holds s.delayed s.rest s.uptime) ?_ ?_ h
  · rintro s ⟨free, hrest⟩
    rw [hrest]
    refine ⟨accounted_blank _, List.length_replicate, fun i event hi _ => ?_,
      fun i event hi hused => ?_, fun x hx => by cases hx⟩
    · show (List.replicate s.delayed.length none)[i]? = _
      rw [List.getElem?_replicate, if_pos (List.getElem?_eq_some_iff.mp hi).1]
    · exact absurd (hused.symm.trans (free event (List.mem_of_getElem? hi))) nofun
  · exact fun s op s' hs hstep => Op.watch_holds hs hstep


/-! ## The queues -/

/-- Of some posts, the contexts of those whose task has a priority. -/
def queuedFor (b : Backend H) (p : Nat) (moves : List (Nat × PostArgs)) : List Ctx :=
  (moves.filter fun m => (b.find m.2.taskId).any fun entry => entry.priority.toNat == p).map
    fun m => m.2.ctx

/-- On a bus that is ready, what is moved stands at the ends of the queues, in slot order. -/
theorem moveDueFrom_queues (nowMs : UInt32) {s : Bus H X} {bs : List Block} {q : Nat → List Node}
    (r : Ready s bs q) (slots : List DelayedEvent)
    (fit : ∀ event ∈ slots, event.payloadLen.toNat + 16 < 2 ^ 32) (i : Nat) :
    ∃ s' slots' ret bs' q', moveDueFrom nowMs slots s = some (s', slots', ret) ∧
      s'.backend = s.backend ∧ Ready s' bs' q' ∧ ∀ p, (q' p).map Node.ctx =
        (q p).map Node.ctx ++ queuedFor s.backend p (movedFrom nowMs slots i s) := by
  induction slots generalizing s bs q i with
  | nil => exact ⟨s, [], .ok, bs, q, rfl, rfl, r, fun p => (List.append_nil _).symm⟩
  | cons event rest ih =>
    have frest : ∀ e ∈ rest, e.payloadLen.toNat + 16 < 2 ^ 32 :=
      fun e he => fit e (List.mem_cons_of_mem _ he)
    unfold moveDueFrom movedFrom
    by_cases hdue : event.used = false ∨ dueReached nowMs event.dueMs = false
    · obtain ⟨s', slots', ret, bs', q', hres, back, r', hq⟩ := ih r frest (i + 1)
      rw [if_pos hdue, if_pos hdue, hres]
      exact ⟨s', _, ret, bs', q', rfl, back, r', hq⟩
    · obtain ⟨s₁, ret, hres, same, hcase⟩ :=
        emosPost_spec r event.args (fit event List.mem_cons_self)
      rw [if_neg hdue, if_neg hdue, hres]
      rcases hcase with ⟨_, ⟨e, rfl⟩, _, r₁⟩ | ⟨bs₁, entry, addr, _, rfl, hfind, r₁⟩
      · exact ⟨s₁, _, .err e, bs, q, rfl, same.backend, r₁, fun p => (List.append_nil _).symm⟩
      · obtain ⟨s₂, slots', ret, bs₂, q₂, hres₂, back, r₂, hq⟩ := ih r₁ frest (i + 1)
        refine ⟨s₂, DelayedEvent.zero :: slots', ret, bs₂, q₂, ?_, back.trans same.backend, r₂,
          fun p => ?_⟩
        · simp only [hres₂]
        · dsimp only
          rw [hq p, same.backend]
          unfold queuedFor
          by_cases hp : entry.priority.toNat = p
          · rw [List.filter_cons_of_pos (by simp [hfind, hp]), List.map_cons, ← hp,
              Function.update_self, List.map_append, List.append_assoc]
            rfl
          · rw [List.filter_cons_of_neg (by simp [hfind, hp]), Function.update_of_ne (Ne.symm hp)]

/-! ## The law of delayed events -/

/-- What is promised of delayed events with some delay: every post out of a slot is of an accepted
event, each accepted event is honoured, and posts stand at the ends of the task queues. -/
structure DelaysKept (s : Bus H Ledger) (delayMs : UInt32) : Prop where
  ticketed : ∀ x ∈ s.rest.taken, ∃ k t, x.1 = some k ∧ s.rest.issued[k]? = some t
  honoured : ∀ (k : Nat) t, s.rest.issued[k]? = some t → t.delayMs = delayMs → Honoured s k t
  queued : ∀ bs q, Ready s bs q → SlotsFit s → ∃ s' ret bs' q',
    moveDueEvents s = some (s', ret) ∧ Ready s' bs' q' ∧
      ∀ p, (q' p).map Node.ctx = (q p).map Node.ctx ++ queuedFor s.backend p (moved s)

/-- An event with a delay of at most 2^31 milliseconds is honoured. -/
theorem Holds.honoured {s : Bus H Ledger} (h : Holds s.delayed s.rest s.uptime) {k : Nat} {t : Delay}
    (hk : s.rest.issued[k]? = some t) (short : t.delayMs.toNat ≤ 2 ^ 31) : Honoured s k t := by
  have taken : ∀ m, (some k, m) ∈ s.rest.taken → m.args.ctx = t.args.ctx ∧
      t.time + t.delayMs.toNat ≤ m.time := by
    intro m hm
    obtain ⟨k', t', hk', hissued, hctx, htime⟩ := h.moves _ hm
    cases hk'
    obtain rfl : t = t' := Option.some.inj (hk.symm.trans hissued)
    exact ⟨hctx, htime short⟩
  refine ⟨fun m hm => (taken m hm).2, fun m hm => (taken m hm).1,
    List.nodup_iff_count_le_one.mp h.accounted.nodup _, fun fresh => ?_⟩
  rcases h.accounted.held_or_taken (List.getElem?_eq_some_iff.mp hk).1 with hheld | ⟨m, hm⟩
  · obtain ⟨i, hi, hget⟩ := List.getElem_of_mem hheld
    have hat : s.rest.held[i]? = some (some k) := by rw [List.getElem?_eq_getElem hi, hget]
    obtain ⟨event, hslot⟩ : ∃ event, s.delayed[i]? = some event :=
      ⟨_, List.getElem?_eq_getElem (h.length ▸ hi)⟩
    cases hused : event.used with
    | false => exact absurd (hat.symm.trans (h.free i _ hslot hused)) nofun
    | true =>
      obtain ⟨k', t', hheld', hissued, hstores, _⟩ := h.used i _ hslot hused
      cases hat.symm.trans hheld'
      obtain rfl : t = t' := Option.some.inj (hk.symm.trans hissued)
      exact ⟨i, _, hslot, hused, hat, hstores⟩
  · exact absurd hm (fresh m)

/-- Short delays are kept in every run. -/
theorem kept_of_short {delayMs : UInt32} (short : delayMs.toNat ≤ 2 ^ 31) {s : Bus H Ledger}
    (h : s.Watched payloadMax) : DelaysKept s delayMs := by
  have holds := watched_holds h
  refine ⟨fun x hx => ?_, fun k t hk hd => holds.honoured hk (hd ▸ short), fun bs q r fit => ?_⟩
  · obtain ⟨k, t, hk, hissued, _⟩ := holds.moves x hx
    exact ⟨k, t, hk, hissued⟩
  · obtain ⟨s', slots, ret, bs', q', hres, _, r', hq⟩ :=
      moveDueFrom_queues (uptime32 s) r s.delayed fit 0
    refine ⟨{ s' with delayed := slots }, ret, bs', q', ?_, r'.congr rfl rfl rfl rfl, hq⟩
    unfold moveDueEvents
    rw [hres]

/-- The bus that `rtbus_init` leaves with one quiet task and one slot. -/
def quietBus : Bus Unit Ledger :=
  { heap := initMemPool ⟨fun _ => 0, fun _ => PoolVars.zero⟩ poolId 0x20001000 256
    taskTbl := fun _ => null
    entryCount := 1
    pollNextIndex := 0
    backend := .table (some quietTask.entries)
    eventSem := 0
    delayed := [DelayedEvent.zero]
    uptime := 0
    rest := Book.blank 1 }

/-- The same bus with an event in its slot. -/
def filledBus (event : DelayedEvent) (b : Ledger) : Bus Unit Ledger :=
  { quietBus with delayed := [event], eventSem := 1, rest := b }

theorem filledBus_ready (event : DelayedEvent) (b : Ledger) :
    Ready (filledBus event b) [] (fun _ => []) ∧ accepts (filledBus event b) [] (.bare 1 0) ≠ none := by
  obtain ⟨v, _⟩ := @initMemPool_spec ⟨fun _ => 0, fun _ => PoolVars.zero⟩ poolId 0x20001000 256
    (by decide) (by decide)
  have registry := (Backend.init_ok (show (Backend.table none : Backend Unit).init
    (some quietTask) = (_, .ok, 1) from rfl)).1
  have range : 0x20001000 + 256 ≤ 2 ^ 32 := by decide
  obtain ⟨hroom, hactive⟩ := poolRoom_fresh ⟨fun _ => 0, fun _ => PoolVars.zero⟩ range (by decide)
  have hfresh : freshRoom 0x20001000 256 = 255 := by decide
  rw [hfresh] at hroom hactive
  refine ⟨⟨queued_fresh v, registry, Nat.one_pos, fun _ _ h => by cases h⟩, ?_⟩
  have hplace : place 255 16 [] = some [⟨true, 16⟩] := by decide
  unfold accepts
  rw [if_pos ⟨rfl, fun _ => rfl, (show 16 + 0 ≤ 65535 by decide), hactive (by decide)⟩]
  show place (poolRoom (initMemPool _ poolId 0x20001000 256)) ((16 + 0 + 3) / 4 * 4) [] ≠ none
  rw [hroom, hplace]
  exact nofun

/-- A post for its task is taken, and the next stages of `rtbus_process` dispatch it. -/
theorem filledBus_post (payloadMax : Nat) (event : DelayedEvent) (b : Ledger) :
    ∃ s, emosPost (filledBus event b) (.bare 1 0) = some (s, .ok) ∧ ∃ s' outcome,
      emosProcess (fun s => (watchActs payloadMax [] s).map fun s => (s, .ok))
        (fun _ _ s => watchActs payloadMax [] s) { s with delayed := [DelayedEvent.zero] } =
          some (s', outcome) ∧ s'.rest = b := by
  obtain ⟨r, accepted⟩ := filledBus_ready event b
  obtain ⟨s, ret, hpost, same, hcase⟩ :=
    emosPost_spec r (.bare 1 0) (show 0 + 16 < 2 ^ 32 by decide)
  rcases hcase with ⟨hnone, _⟩ | ⟨bs, entry, addr, _, rfl, hfind, r₁⟩
  · exact absurd hnone accepted
  · obtain ⟨_, _, f, htask⟩ := r.registry.found _ _ hfind
    have r₂ : Ready { s with delayed := [DelayedEvent.zero] } bs _ := r₁.congr rfl rfl rfl rfl
    obtain ⟨s', bs', hdispatch, same', _⟩ := emosProcessQueuedEvent_dispatches
      (fun _ _ s => watchActs payloadMax [] s) (p := entry.priority.toNat) (f := f) r₂
      (fun p' hp' => Function.update_of_ne (Nat.ne_of_lt hp') ..) (Function.update_self ..)
      (same.backend ▸ hfind) htask rfl r₂ (Function.update_self ..)
    refine ⟨s, hpost, s', .dispatched entry (PostArgs.bare 1 0).ctx, ?_, same'.rest.trans same.rest⟩
    unfold emosProcess
    rw [if_neg (Nat.pos_iff_ne_zero.mp r₂.count_pos)]
    show dispatchOrPoll _ { s with delayed := [DelayedEvent.zero] } = _
    unfold dispatchOrPoll
    rw [hdispatch]

/-- With an event that is due, a call of `rtbus_process` moves it. -/
theorem filledBus_process (event : DelayedEvent) (used : event.used = true)
    (due : dueReached 0 event.dueMs = true) (args : event.args = .bare 1 0) (b : Ledger) :
    ∃ s, Op.watch payloadMax (.process [] []) (filledBus event b) = some s ∧
      s.rest = b.take 0 ⟨0, .bare 1 0⟩ := by
  have hdue : ¬ (event.used = false ∨ dueReached 0 event.dueMs = false) := by simp [used, due]
  have hmoved : moved (filledBus event b) = [(0, .bare 1 0)] := by
    obtain ⟨s, hpost, _⟩ := filledBus_post payloadMax event b
    show movedFrom 0 [event] 0 (filledBus event b) = _
    unfold movedFrom
    rw [if_neg hdue, args, hpost]
    rfl
  obtain ⟨s, hpost, s', outcome, hprocess, hrest⟩ :=
    filledBus_post payloadMax event (b.take 0 ⟨0, .bare 1 0⟩)
  refine ⟨s', ?_, hrest⟩
  unfold Op.watch
  dsimp only
  rw [hmoved]
  show (rtbusProcess _ _ (filledBus event (b.take 0 ⟨0, .bare 1 0⟩))).map _ = _
  unfold rtbusProcess moveDueEvents
  have hmove : moveDueFrom 0 [event] (filledBus event (b.take 0 ⟨0, .bare 1 0⟩)) =
      some (s, [DelayedEvent.zero], .ok) := by
    unfold moveDueFrom
    rw [if_neg hdue, args, hpost]
    rfl
  rw [show moveDueFrom (uptime32 (filledBus event (b.take 0 ⟨0, .bare 1 0⟩)))
    (filledBus event (b.take 0 ⟨0, .bare 1 0⟩)).delayed _ = _ from hmove]
  dsimp only
  rw [hprocess]
  rfl

/-- A longer delay is not kept: the next call of `rtbus_process` moves the event. -/
theorem exists_early (payloadMax : Nat) {delayMs : UInt32} (long : 2 ^ 31 < delayMs.toNat) :
    ∃ s : Bus Unit Ledger, s.Watched payloadMax ∧ ¬ DelaysKept s delayMs := by
  have hpos : delayMs ≠ 0 := by
    rintro rfl
    exact absurd long (by decide)
  obtain ⟨event, hevent⟩ : ∃ event, (PostArgs.bare 1 0).delayedEvent
      (uptime32 quietBus + delayMs) (fun _ => rfl) = event := ⟨_, rfl⟩
  have hpost : Op.watch payloadMax (.act (.postDelay (.bare 1 0) delayMs)) quietBus =
      some (filledBus event ((Book.blank 1).put 0 ⟨0, delayMs, .bare 1 0⟩)) := by
    have small : ¬ (PostArgs.bare 1 0).payloadLen.toNat > payloadMax :=
      Nat.not_lt.mpr (Nat.zero_le _)
    have hcall : rtbusPostDelay payloadMax quietBus (.bare 1 0) delayMs =
        some ({ quietBus with delayed := [event], eventSem := 1 }, .ok) := by
      unfold rtbusPostDelay
      rw [if_neg hpos, dif_neg (fun h => h.1 rfl), if_neg small, ← hevent]
      rfl
    unfold Op.watch Act.watch Act.perform
    dsimp only
    rw [hcall]
    dsimp only
    unfold noteAct
    dsimp only
    rw [if_neg hpos]
    rfl
  obtain ⟨s, hprocess, hrest⟩ := filledBus_process event (by rw [← hevent]; rfl)
    (by rw [← hevent]; exact due_of_long long) (by rw [← hevent]; rfl)
    ((Book.blank 1).put 0 ⟨0, delayMs, .bare 1 0⟩)
  have start : quietBus.Blank := ⟨fun event hmem => by cases List.mem_singleton.mp hmem; rfl, rfl⟩
  refine ⟨s, .step (.step (.start start) hpost) hprocess, fun kept => ?_⟩
  have honoured := kept.honoured 0 ⟨0, delayMs, .bare 1 0⟩ (by rw [hrest]; rfl) rfl
  have htime := honoured.notEarly ⟨0, .bare 1 0⟩ (by
    rw [hrest]
    exact List.mem_singleton.mpr rfl)
  dsimp only at htime
  omega

/-- Delayed events with a given delay are kept in every run, whatever the other delays are, exactly if
the delay is at most 2^31 milliseconds. -/
theorem delays_kept_iff (payloadMax : Nat) (delayMs : UInt32) :
    (∀ (H : Type) (s : Bus H Ledger), s.Watched payloadMax → DelaysKept s delayMs) ↔
      delayMs.toNat ≤ 2 ^ 31 := by
  constructor
  · intro h
    refine Nat.not_lt.mp fun long => ?_
    obtain ⟨s, watched, not⟩ := exists_early payloadMax long
    exact not (h Unit s watched)
  · exact fun short H s watched => kept_of_short short watched

/-- A delay of 2^31 + 1 milliseconds is over at once. -/
theorem long_delay_early :
    ¬ ∀ (H : Type) (s : Bus H Ledger), s.Watched 32 → DelaysKept s 0x80000001 := by
  intro h
  obtain ⟨s, watched, not⟩ := exists_early 32 (show 2 ^ 31 < (0x80000001 : UInt32).toNat by decide)
  exact not (h Unit s watched)

end Rtbus.Emos
