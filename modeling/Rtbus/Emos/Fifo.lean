import Rtbus.Emos.Runs

/-!
# The bus as a priority queue

What the bus is for: events are accepted one after the other, and each call of `rtbus_process` hands
the oldest event that is still pending in the highest priority that has one to its task. `Fifo` says
this with two lists, all events ever accepted and the tickets (positions in that list) that have
been dispatched. What is pending, and in which order, is computed from the two.

`Fifo.Step` is the behaviour with its observations: an operation on the bus together with the log
entries it leaves. The bus in memory simulates it, so every log that a run of the bus leaves is a
log of the priority queue.
-/

namespace Rtbus.Emos

open Rtbus.Pool Rtbus.Tiling

/-- An accepted event. -/
structure Accepted where
  priority : Nat
  ctx : Ctx

/-- All accepted events in order, and the tickets dispatched so far. -/
structure Fifo where
  accepted : List Accepted
  dispatched : List Nat

namespace Fifo

/-- Of the events `es`, whose tickets start at `i`, those of priority `p` that are not dispatched,
with their tickets. -/
def pendingFrom (dispatched : List Nat) (p : Nat) : Nat → List Accepted → List (Nat × Ctx)
  | _, [] => []
  | i, e :: es =>
    if e.priority = p ∧ i ∉ dispatched then (i, e.ctx) :: pendingFrom dispatched p (i + 1) es
    else pendingFrom dispatched p (i + 1) es

/-- The pending events of a priority, oldest first. -/
def pending (a : Fifo) (p : Nat) : List (Nat × Ctx) := pendingFrom a.dispatched p 0 a.accepted

/-- Accept an event. -/
def accept (a : Fifo) (e : Accepted) : Fifo := { a with accepted := a.accepted ++ [e] }

/-- Dispatch the event with a ticket. -/
def dispatch (a : Fifo) (ticket : Nat) : Fifo := { a with dispatched := a.dispatched ++ [ticket] }

/-- No ticket is dispatched twice, and only those of accepted events are. -/
structure WellFormed (a : Fifo) : Prop where
  nodup : a.dispatched.Nodup
  bound : ∀ i ∈ a.dispatched, i < a.accepted.length

variable {H : Type} (b : Backend H)

/-- The effect of a log entry: a post that returned 0 is an accepted event, with the priority of its
task; anything else changes nothing. -/
def logged (a : Fifo) : LogEntry H → Fifo
  | .did (.post args) .ok =>
    match b.find args.taskId with
    | some entry => a.accept ⟨entry.priority.toNat, args.ctx⟩
    | none => a
  | _ => a

/-- A post that returned 0 adds its event. -/
theorem logged_post (a : Fifo) {args : PostArgs} {entry : Entry H}
    (found : b.find args.taskId = some entry) :
    a.logged b (.did (.post args) .ok) = a.accept ⟨entry.priority.toNat, args.ctx⟩ := by
  simp only [logged, found]

/-- The effect of a log. -/
def replay (a : Fifo) (log : Log H) : Fifo := log.foldl (logged b) a

/-- The log of the `INIT` events that `emos_init` posts, one for each of `count` entries from `index`
on whose `init` flag is set. -/
def initLog : Nat → Nat → Log H
  | 0, _ => []
  | count + 1, index =>
    match b.getByIndex index with
    | some entry =>
      if entry.init then .did (.post (initArgs entry)) .ok :: initLog count (index + 1)
      else initLog count (index + 1)
    | none => []

/-- The state after initialisation. -/
def initial (count : Nat) : Fifo := replay b ⟨[], []⟩ (initLog b count 0)

/-- Initialisation accepts `INIT` events only. -/
theorem initial_accepted (count : Nat) :
    ∀ e ∈ (initial b count).accepted, ∃ entry : Entry H, e.ctx = (initArgs entry).ctx := by
  have key : ∀ (count index : Nat) (a : Fifo),
      (∀ e ∈ a.accepted, ∃ entry : Entry H, e.ctx = (initArgs entry).ctx) →
      ∀ e ∈ (a.replay b (initLog b count index)).accepted,
        ∃ entry : Entry H, e.ctx = (initArgs entry).ctx := by
    intro count
    induction count with
    | zero => exact fun _ a ha => ha
    | succ count ih =>
      intro index a ha
      unfold initLog
      cases hget : b.getByIndex index with
      | none => exact ha
      | some entry =>
        dsimp only
        split
        · refine ih (index + 1) (a.logged b (.did (.post (initArgs entry)) .ok)) fun e he => ?_
          unfold logged at he
          dsimp only at he
          split at he
          · rcases List.mem_append.mp he with he | he
            · exact ha e he
            · rw [List.mem_singleton.mp he]
              exact ⟨entry, rfl⟩
          · exact ha e he
        · exact ih (index + 1) a ha
  exact key count 0 ⟨[], []⟩ fun e he => by cases he

/-- The oldest pending event of the highest priority that has one. -/
def Oldest (a : Fifo) (p ticket : Nat) (ctx : Ctx) : Prop :=
  (∃ rest, a.pending p = (ticket, ctx) :: rest) ∧ ∀ p' < p, a.pending p' = []

/-- The log of some acts, in order, each with a result. -/
def Noted (acts : List Act) (log : Log H) : Prop :=
  List.Forall₂ (fun a e => ∃ ret, e = LogEntry.did a ret) acts log

/-- One operation and the log entries it leaves. -/
inductive Step : Fifo → Op × Log H → Fifo → Prop
  /-- An act from outside. -/
  | act {a : Fifo} {x : Act} {ret : Ret} :
      Step a (.act x, [.did x ret]) (a.logged b (.did x ret))
  /-- With an event pending, `rtbus_process` calls the handler of the oldest one of the highest
  priority, once, with the context that was posted. -/
  | dispatch {a : Fifo} {hook handler : List Act} {pre post : Log H} {p ticket : Nat} {ctx : Ctx}
      {entry : Entry H} {f : H} : Noted hook pre → Noted handler post →
      (a.replay b pre).Oldest p ticket ctx → b.find ctx.taskId = some entry →
      entry.priority.toNat = p → entry.taskEntry = some f →
      Step a (.process hook handler, pre ++ .called f ctx :: post)
        (((a.replay b pre).dispatch ticket).replay b post)
  /-- With nothing pending it may poll a task that asked for it. -/
  | poll {a : Fifo} {hook handler : List Act} {pre post : Log H} {entry : Entry H} {f : H}
      {index : Nat} : Noted hook pre → Noted handler post →
      (∀ p, (a.replay b pre).pending p = []) → b.getByIndex index = some entry →
      entry.always = true → entry.taskEntry = some f →
      Step a (.process hook handler,
          pre ++ .called f { taskId := entry.taskId, id := sysEvt sysPoll, payload := [] } :: post)
        ((a.replay b pre).replay b post)
  /-- With nothing pending it may call nobody. -/
  | idle {a : Fifo} {hook handler : List Act} {pre : Log H} : Noted hook pre →
      (∀ p, (a.replay b pre).pending p = []) → Step a (.process hook handler, pre) (a.replay b pre)

theorem WellFormed.accept {a : Fifo} (w : a.WellFormed) (e : Accepted) :
    (a.accept e).WellFormed := by
  refine ⟨w.nodup, fun i hi => ?_⟩
  have := w.bound i hi
  show i < (a.accepted ++ [e]).length
  rw [List.length_append]
  omega

/-! ## Pending events -/

theorem pendingFrom_append (d : List Nat) (p i : Nat) (xs ys : List Accepted) :
    pendingFrom d p i (xs ++ ys) = pendingFrom d p i xs ++ pendingFrom d p (i + xs.length) ys := by
  induction xs generalizing i with
  | nil => rfl
  | cons x xs ih =>
    simp only [List.cons_append, pendingFrom, ih, List.length_cons,
      show i + 1 + xs.length = i + (xs.length + 1) by omega]
    split
    · rfl
    · rfl

theorem mem_pendingFrom {d : List Nat} {p i t : Nat} {es : List Accepted} {c : Ctx} :
    (t, c) ∈ pendingFrom d p i es ↔ i ≤ t ∧ es[t - i]? = some ⟨p, c⟩ ∧ t ∉ d := by
  induction es generalizing i with
  | nil => simp [pendingFrom]
  | cons e es ih =>
    have htail : (t, c) ∈ pendingFrom d p (i + 1) es ↔
        i < t ∧ (e :: es)[t - i]? = some ⟨p, c⟩ ∧ t ∉ d := by
      rw [ih]
      constructor
      · rintro ⟨h1, h2, h3⟩
        refine ⟨by omega, ?_, h3⟩
        rw [show t - i = (t - (i + 1)) + 1 by omega, List.getElem?_cons_succ]
        exact h2
      · rintro ⟨h1, h2, h3⟩
        rw [show t - i = (t - (i + 1)) + 1 by omega, List.getElem?_cons_succ] at h2
        exact ⟨by omega, h2, h3⟩
    have hself : t = i → (e :: es)[t - i]? = some e := by
      rintro rfl
      rw [Nat.sub_self]
      rfl
    rw [pendingFrom]
    split
    · rename_i hcond
      rw [List.mem_cons, htail, Prod.mk.injEq]
      constructor
      · rintro (⟨rfl, rfl⟩ | ⟨h1, h2⟩)
        · refine ⟨Nat.le_refl _, ?_, hcond.2⟩
          rw [hself rfl, ← hcond.1]
        · exact ⟨by omega, h2⟩
      · rintro ⟨h1, h2, h3⟩
        by_cases hti : t = i
        · rw [hself hti, Option.some.injEq] at h2
          exact .inl ⟨hti, by rw [h2]⟩
        · exact .inr ⟨by omega, h2, h3⟩
    · rename_i hcond
      rw [htail]
      constructor
      · rintro ⟨h1, h2⟩
        exact ⟨by omega, h2⟩
      · rintro ⟨h1, h2, h3⟩
        refine ⟨Nat.lt_of_le_of_ne h1 fun hit => hcond ?_, h2, h3⟩
        rw [hself hit.symm, Option.some.injEq] at h2
        exact ⟨by rw [h2], hit ▸ h3⟩

/-- An event is pending exactly if it was accepted and not dispatched. -/
theorem mem_pending {a : Fifo} {p t : Nat} {c : Ctx} :
    (t, c) ∈ a.pending p ↔ a.accepted[t]? = some ⟨p, c⟩ ∧ t ∉ a.dispatched := by
  unfold pending
  rw [mem_pendingFrom, Nat.sub_zero]
  exact ⟨fun h => h.2, fun h => ⟨Nat.zero_le _, h⟩⟩

/-- Tickets come in order. -/
theorem pendingFrom_pairwise (d : List Nat) (p i : Nat) (es : List Accepted) :
    (pendingFrom d p i es).Pairwise fun x y => x.1 < y.1 := by
  induction es generalizing i with
  | nil => exact .nil
  | cons e es ih =>
    rw [pendingFrom]
    split
    · refine .cons (fun y hy => ?_) (ih _)
      have := (mem_pendingFrom.mp hy).1
      dsimp only
      omega
    · exact ih _

/-- A new event is pending behind the others of its priority. -/
theorem pending_accept {a : Fifo} (w : a.WellFormed) (e : Accepted) (p : Nat) :
    (a.accept e).pending p =
      a.pending p ++ if e.priority = p then [(a.accepted.length, e.ctx)] else [] := by
  have hfresh : a.accepted.length ∉ a.dispatched := fun h => Nat.lt_irrefl _ (w.bound _ h)
  unfold pending accept
  rw [pendingFrom_append, Nat.zero_add]
  congr 1
  by_cases hp : e.priority = p
  · rw [pendingFrom, if_pos ⟨hp, hfresh⟩, if_pos hp]
    rfl
  · rw [pendingFrom, if_neg (fun h => hp h.1), if_neg hp]
    rfl

theorem pendingFrom_dispatch (d : List Nat) (t p i : Nat) (es : List Accepted) :
    pendingFrom (d ++ [t]) p i es = (pendingFrom d p i es).filter (·.1 ≠ t) := by
  induction es generalizing i with
  | nil => rfl
  | cons e es ih =>
    simp only [pendingFrom, ih, List.mem_append, List.mem_singleton, not_or]
    by_cases hp : e.priority = p ∧ i ∉ d
    · by_cases hit : i = t
      · rw [if_neg (fun h => h.2.2 hit), if_pos hp, List.filter_cons_of_neg (by simpa using hit)]
      · rw [if_pos ⟨hp.1, hp.2, hit⟩, if_pos hp, List.filter_cons_of_pos (by simpa using hit)]
    · rw [if_neg (fun h => hp ⟨h.1, h.2.1⟩), if_neg hp]

/-- Dispatching the oldest event of a priority takes it out of the pending ones. -/
theorem pending_dispatch {a : Fifo} {p t : Nat} {c : Ctx} {rest : List (Nat × Ctx)}
    (h : a.pending p = (t, c) :: rest) (p' : Nat) :
    (a.dispatch t).pending p' = if p' = p then rest else a.pending p' := by
  have hmem : (t, c) ∈ a.pending p := by
    rw [h]
    exact List.mem_cons_self ..
  have hfilter : ∀ l : List (Nat × Ctx), (∀ x ∈ l, x.1 ≠ t) → l.filter (·.1 ≠ t) = l :=
    fun l hl => List.filter_eq_self.mpr fun x hx => by simpa using hl x hx
  show pendingFrom (a.dispatched ++ [t]) p' 0 a.accepted = _
  rw [pendingFrom_dispatch]
  change (a.pending p').filter _ = _
  split
  · rename_i hp
    subst hp
    have hpair := pendingFrom_pairwise a.dispatched p' 0 a.accepted
    change (a.pending p').Pairwise _ at hpair
    rw [h] at hpair ⊢
    rw [List.filter_cons_of_neg (by simp)]
    refine hfilter rest fun x hx => ?_
    have := List.rel_of_pairwise_cons hpair hx
    dsimp only at this
    omega
  · rename_i hp
    refine hfilter _ fun x hx hxt => hp ?_
    have h1 := (mem_pending.mp hmem).1
    have h2 := ((mem_pending (t := x.1) (c := x.2)).mp hx).1
    rw [hxt, h1] at h2
    simpa using (congrArg Accepted.priority (Option.some.inj h2)).symm

end Fifo

end Rtbus.Emos
