import Mathlib.Data.Nat.Find
import Rtbus.Base.Run
import Rtbus.Emos.Steps

/-!
# Runs of the bus

What the rest of the program does with the bus, from outside or inside a handler, is to post, to
post with a delay, and to let time pass. A handler may decide what to do by anything it has seen;
since runs range over all lists of such acts for every call of `rtbus_process`, they cover every
handler that calls neither `rtbus_process` nor `rtbus_init`, and likewise every hook for
asynchronous posts that returns 0.

The rest of the program is instantiated with a log, in which every act is noted with its result and
every call of a handler with its context.
-/

namespace Rtbus.Emos

open Rtbus.Pool Rtbus.Tiling

/-- What the program around the bus does. -/
inductive Act
  | post (args : PostArgs)
  | postDelay (args : PostArgs) (delayMs : UInt32)
  | advance (ms : Nat)

/-- An entry of the log. -/
inductive LogEntry (H : Type)
  | did (act : Act) (ret : Ret)
  | called (handler : H) (ctx : Ctx)

abbrev Log (H : Type) := List (LogEntry H)

variable {H X : Type} (payloadMax : Nat)

/-- The block size of a post does not wrap `size_t`. -/
def PostArgs.Fits (args : PostArgs) : Prop := args.payloadLen.toNat + 16 < 2 ^ 32

/-- The block sizes of an act do not wrap `size_t`. -/
def Act.Fits : Act → Prop
  | .post args => args.Fits
  | .postDelay args _ => args.Fits
  | .advance _ => True

/-- An act and its result. -/
def Act.perform : Act → Bus H X → Option (Bus H X × Ret)
  | .post args, s => rtbusPost s args
  | .postDelay args delayMs, s => rtbusPostDelay payloadMax s args delayMs
  | .advance ms, s => some ({ s with uptime := s.uptime + ms }, .ok)

/-- Add an entry to the log. -/
def note (s : Bus H (Log H)) (e : LogEntry H) : Bus H (Log H) := { s with rest := s.rest ++ [e] }

/-- An act that is noted. -/
def Act.run (a : Act) (s : Bus H (Log H)) : Option (Bus H (Log H)) :=
  match a.perform payloadMax s with
  | none => none
  | some (s, ret) => some (note s (.did a ret))

/-- Acts one after the other. -/
def runActs : List Act → Bus H (Log H) → Option (Bus H (Log H))
  | [], s => some s
  | a :: as, s =>
    match a.run payloadMax s with
    | none => none
    | some s => runActs as s

/-- What is done to the bus from outside: an act, or a call of `rtbus_process` during which the hook
and the handler, if one is called, do the given acts. -/
inductive Op
  | act (a : Act)
  | process (hook handler : List Act)

/-- A hook that does some acts and returns 0. -/
def hookOf (acts : List Act) (s : Bus H (Log H)) : Option (Bus H (Log H) × Ret) :=
  (runActs payloadMax acts s).map fun s => (s, .ok)

/-- Handlers that note their call and do some acts. -/
def handlerOf (acts : List Act) : Handle H (Log H) := fun f ctx s =>
  runActs payloadMax acts (note s (.called f ctx))

/-- `rtbus_process` with a hook and handlers that do the given acts. -/
def processWith (hook handler : List Act) (s : Bus H (Log H)) :
    Option (Bus H (Log H) × Outcome H) :=
  rtbusProcess (hookOf payloadMax hook) (handlerOf payloadMax handler) s

/-- What an operation does. -/
def Op.run : Op → Bus H (Log H) → Option (Bus H (Log H))
  | .act a, s => a.run payloadMax s
  | .process hook handler, s => (processWith payloadMax hook handler s).map Prod.fst

/-- The acts of an operation. -/
def Op.acts : Op → List Act
  | .act a => [a]
  | .process hook handler => hook ++ handler

/-- The delayed events have block sizes that do not wrap `size_t`. -/
def SlotsFit (s : Bus H X) : Prop := ∀ event ∈ s.delayed, event.payloadLen.toNat + 16 < 2 ^ 32

variable {payloadMax}

/-- Nothing but the log, the clock, the slots and the semaphore changed. -/
theorem Ready.congr {Y : Type} {s : Bus H X} {s' : Bus H Y} {bs : List Block} {q : Nat → List Node}
    (r : Ready s bs q) (heap : s'.heap = s.heap) (tbl : s'.taskTbl = s.taskTbl)
    (backend : s'.backend = s.backend) (count : s'.entryCount = s.entryCount) : Ready s' bs q := by
  refine ⟨?_, ?_, ?_, ?_⟩
  · rw [heap, tbl]
    exact r.queued
  · rw [backend]
    exact r.registry
  · rw [count]
    exact r.count_pos
  · rw [backend]
    exact r.tasks

/-- Queues that only grew at their ends. -/
def Grown (q q' : Nat → List Node) : Prop := ∀ p, q p <+: q' p

theorem Grown.refl (q : Nat → List Node) : Grown q q := fun _ => List.prefix_rfl

theorem Grown.trans {q₁ q₂ q₃ : Nat → List Node} (h : Grown q₁ q₂) (h' : Grown q₂ q₃) :
    Grown q₁ q₃ := fun p => (h p).trans (h' p)

theorem grown_append (q : Nat → List Node) (p : Nat) (l : List Node) :
    Grown q (Function.update q p (q p ++ l)) :=
  (Function.forall_update_iff q fun p' l => q p' <+: l).mpr
    ⟨List.prefix_append _ _, fun _ _ => List.prefix_rfl⟩

/-- What acts leave of a bus: it stays ready, its queues only grew, and its pool and registry stay
where they are. -/
structure Kept (s : Bus H X) (q : Nat → List Node) (s' : Bus H X) (bs' : List Block)
    (q' : Nat → List Node) : Prop where
  ready : Ready s' bs' q'
  grown : Grown q q'
  slots : SlotsFit s → SlotsFit s'
  backend : s'.backend = s.backend
  confined : Confined s.heap s'.heap poolId

theorem Posted.kept {s s' : Bus H X} {bs : List Block} {q : Nat → List Node} {args : PostArgs}
    {ret : Ret} (h : Posted s bs q args s' ret) : ∃ bs' q', Kept s q s' bs' q' := by
  obtain ⟨same, hcase⟩ := h
  have slots : SlotsFit s → SlotsFit s' := by
    intro h
    unfold SlotsFit
    rw [same.delayed]
    exact h
  rcases hcase with ⟨_, _, _, r⟩ | ⟨bs', entry, addr, _, _, _, r⟩
  · exact ⟨bs, q, r, Grown.refl q, slots, same.backend, same.confined⟩
  · exact ⟨bs', _, r, grown_append _ _ _, slots, same.backend, same.confined⟩

/-- An act returns and leaves the bus ready. -/
theorem Act.perform_spec (payloadMax : Nat) {s : Bus H X} {bs : List Block}
    {q : Nat → List Node} (r : Ready s bs q)
    (a : Act) (fits : a.Fits) :
    ∃ s' ret bs' q', a.perform payloadMax s = some (s', ret) ∧ Kept s q s' bs' q' := by
  have post : ∀ args : PostArgs, args.Fits →
      ∃ s' ret bs' q', rtbusPost s args = some (s', ret) ∧ Kept s q s' bs' q' := by
    intro args hfits
    obtain ⟨s', ret, hres, posted⟩ := rtbusPost_spec r args hfits
    obtain ⟨bs', q', kept⟩ := posted.kept
    exact ⟨s', ret, bs', q', hres, kept⟩
  have same : ∀ e, ∃ s' ret bs' q', some (s, Ret.err e) = some (s', ret) ∧ Kept s q s' bs' q' :=
    fun e => ⟨s, .err e, bs, q, rfl, r, Grown.refl q, id, rfl, Confined.refl s.heap poolId⟩
  cases a with
  | post args => exact post args fits
  | advance ms =>
    exact ⟨_, _, bs, q, rfl, r.congr rfl rfl rfl rfl, Grown.refl q, id, rfl,
      Confined.refl s.heap poolId⟩
  | postDelay args delayMs =>
    show ∃ s' ret bs' q', rtbusPostDelay payloadMax s args delayMs = some (s', ret) ∧
      Kept s q s' bs' q'
    unfold rtbusPostDelay
    split
    · exact post args fits
    · split
      · exact same _
      · split
        · exact same _
        · split
          · exact same _
          · refine ⟨_, _, bs, q, rfl, r.congr rfl rfl rfl rfl, Grown.refl q, fun hslots => ?_, rfl,
              Confined.refl s.heap poolId⟩
            intro event hevent
            rcases List.mem_or_eq_of_mem_set hevent with hevent | rfl
            · exact hslots event hevent
            · exact fits

/-- Acts return and leave the bus ready. -/
theorem runActs_spec (payloadMax : Nat) {s : Bus H (Log H)} {bs : List Block}
    {q : Nat → List Node} (r : Ready s bs q)
    (acts : List Act) (fits : ∀ a ∈ acts, a.Fits) :
    ∃ s' bs' q', runActs payloadMax acts s = some s' ∧ Kept s q s' bs' q' := by
  induction acts generalizing s bs q with
  | nil => exact ⟨s, bs, q, rfl, r, Grown.refl q, id, rfl, Confined.refl s.heap poolId⟩
  | cons a as ih =>
    obtain ⟨s₁, ret, bs₁, q₁, hres, k₁⟩ := Act.perform_spec payloadMax r a
      (fits a (List.mem_cons_self ..))
    obtain ⟨s₂, bs₂, q₂, hres₂, k₂⟩ := ih (s := note s₁ (.did a ret))
      (k₁.ready.congr rfl rfl rfl rfl) fun b hb => fits b (List.mem_cons_of_mem _ hb)
    refine ⟨s₂, bs₂, q₂, ?_, k₂.ready, k₁.grown.trans k₂.grown, fun h => k₂.slots (k₁.slots h),
      k₂.backend.trans k₁.backend, k₁.confined.trans k₂.confined⟩
    unfold runActs Act.run
    rw [hres]
    exact hres₂

/-- Of the queues that are not empty, one comes first. -/
theorem exists_first {q : Nat → List Node} {p₀ : Nat} (hq : q p₀ ≠ []) :
    ∃ p n rest, q p = n :: rest ∧ ∀ p' < p, q p' = [] := by
  classical
  have hex : ∃ p, q p ≠ [] := ⟨p₀, hq⟩
  obtain ⟨n, rest, hn⟩ := List.exists_cons_of_ne_nil (Nat.find_spec hex)
  exact ⟨Nat.find hex, n, rest, hn, fun p' h => Classical.not_not.mp (Nat.find_min hex h)⟩

end Rtbus.Emos
