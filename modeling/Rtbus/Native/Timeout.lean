import Rtbus.Native.Loop

/-!
# The bound of the sleep and the check of the timers

`rtbus_next_timeout_ms` and `rtbus_move_due_events` compare the clock with the due times in opposite
directions. As long as no due time is exactly half a turn of the clock away, they agree: the first
event that the check would post is the one that the sleep ends with.
-/

namespace Rtbus.Native

open Rtbus.Emos

variable {H X : Type}

/-- The posts that the loop of `rtbus_move_due_events` tries, one after the other. -/
def triedFrom (nowMs : UInt32) : List DelayedEvent → Bus H X → List PostArgs
  | [], _ => []
  | event :: rest, s =>
    if event.used = false ∨ dueReached nowMs event.dueMs = false then triedFrom nowMs rest s
    else
      match emosPost s event.args with
      | some (s, .ok) => event.args :: triedFrom nowMs rest s
      | _ => [event.args]

/-- The posts that a call of `rtbus_move_due_events` tries. -/
def tried (s : Bus H X) : List PostArgs := triedFrom (uptime32 s) s.delayed s

/-- Something is tried when some slot is due, whatever becomes of it. -/
theorem triedFrom_eq_nil_iff {nowMs : UInt32} {slots : List DelayedEvent} {s : Bus H X} :
    triedFrom nowMs slots s = [] ↔
      ∀ event ∈ slots, event.used = true → dueReached nowMs event.dueMs = false := by
  induction slots with
  | nil => exact ⟨fun _ event h => absurd h List.not_mem_nil, fun _ => rfl⟩
  | cons event rest ih =>
    rw [List.forall_mem_cons, triedFrom]
    by_cases hskip : event.used = false ∨ dueReached nowMs event.dueMs = false
    · rw [if_pos hskip, ih]
      refine ⟨fun h => ⟨fun hused => ?_, h⟩, And.right⟩
      exact hskip.resolve_left fun hfree => Bool.false_ne_true (hfree.symm.trans hused)
    · rw [if_neg hskip]
      obtain ⟨hused, hdue⟩ := not_or.mp hskip
      refine ⟨fun h => ?_, fun h => absurd (h.1 (Bool.eq_true_of_not_eq_false hused)) hdue⟩
      split at h <;> cases h

/-! ## Two comparisons -/

/-- How far ahead of the clock a due time is, on the circle. -/
def ahead (nowMs dueMs : UInt32) : Nat := (dueMs - nowMs).toNat

/-- The check at a later time, on the circle. -/
theorem dueReached_after {nowMs dueMs : UInt32} {k : Nat} (hk : k < 2 ^ 32) :
    dueReached (nowMs + UInt32.ofNat k) dueMs = true ↔
      (2 ^ 32 + k - ahead nowMs dueMs) % 2 ^ 32 < 2 ^ 31 := by
  have hnow : nowMs.toNat < 2 ^ 32 := UInt32.toNat_lt _
  have hdue : dueMs.toNat < 2 ^ 32 := UInt32.toNat_lt _
  have hofNat : (UInt32.ofNat k).toNat = k := UInt32.toNat_ofNat_of_lt' hk
  unfold dueReached ahead
  rw [decide_eq_true_iff, UInt32.toNat_sub, UInt32.toNat_sub, UInt32.toNat_add, hofNat]
  omega

/-- Due now, on the circle. -/
theorem dueReached_now {nowMs dueMs : UInt32} :
    dueReached nowMs dueMs = true ↔ (2 ^ 32 - ahead nowMs dueMs) % 2 ^ 32 < 2 ^ 31 := by
  have h : dueReached (nowMs + UInt32.ofNat 0) dueMs = true ↔ _ := dueReached_after (by decide)
  rwa [show UInt32.ofNat 0 = 0 from rfl, UInt32.add_zero, Nat.add_zero] at h

/-- A due time is less than half a turn away. -/
def Near (nowMs dueMs : UInt32) : Prop := (dueMs - nowMs).toInt32.toInt.natAbs < 2 ^ 31

instance (nowMs dueMs : UInt32) : Decidable (Near nowMs dueMs) :=
  inferInstanceAs (Decidable ((dueMs - nowMs).toInt32.toInt.natAbs < 2 ^ 31))

/-- A due time that is near is not half way round. -/
theorem Near.ahead_ne {nowMs dueMs : UInt32} (h : Near nowMs dueMs) : ahead nowMs dueMs ≠ 2 ^ 31 := by
  intro heq
  have hsub : dueMs - nowMs = UInt32.ofNat (2 ^ 31) := UInt32.toNat_inj.mp heq
  unfold Near at h
  rw [hsub] at h
  exact absurd h (by decide)

/-- The timeout is 0 exactly when the check passes. -/
theorem timeoutUntil_eq_zero_iff {nowMs dueMs : UInt32} (h : Near nowMs dueMs) :
    timeoutUntil nowMs dueMs = 0 ↔ dueReached nowMs dueMs = true := by
  have hne := h.ahead_ne
  have hlt : ahead nowMs dueMs < 2 ^ 32 := UInt32.toNat_lt _
  rw [dueReached_now]
  unfold timeoutUntil
  change (if ahead nowMs dueMs < 2 ^ 31 then ahead nowMs dueMs else 0) = 0 ↔ _
  split <;> omega

/-- Before a timeout has passed the check fails, and then it passes. -/
theorem dueReached_of_timeoutUntil {nowMs dueMs : UInt32} (hpos : 0 < timeoutUntil nowMs dueMs) :
    (∀ j < timeoutUntil nowMs dueMs, dueReached (nowMs + UInt32.ofNat j) dueMs = false) ∧
    dueReached (nowMs + UInt32.ofNat (timeoutUntil nowMs dueMs)) dueMs = true := by
  have heq : timeoutUntil nowMs dueMs = ahead nowMs dueMs ∧ ahead nowMs dueMs < 2 ^ 31 := by
    change 0 < (if ahead nowMs dueMs < 2 ^ 31 then ahead nowMs dueMs else 0) at hpos
    change (if ahead nowMs dueMs < 2 ^ 31 then ahead nowMs dueMs else 0) = _ ∧ _
    split at hpos
    · next hlt => exact ⟨if_pos hlt, hlt⟩
    · exact absurd hpos (Nat.lt_irrefl 0)
  obtain ⟨heq, hlt⟩ := heq
  rw [heq] at hpos ⊢
  refine ⟨fun j hj => Bool.eq_false_iff.mpr fun h => ?_, ?_⟩
  · rw [dueReached_after (by omega)] at h
    omega
  · rw [dueReached_after (by omega)]
    omega

/-! ## The least timeout -/

/-- The body of the loop of `rtbus_next_timeout_ms`. -/
def shorter (nowMs : UInt32) (next : Option Nat) (event : DelayedEvent) : Option Nat :=
  if event.used = false then next
  else
    let timeout := timeoutUntil nowMs event.dueMs
    match next with
    | none => some timeout
    | some least => if timeout < least then some timeout else some least

/-- The timeouts of the slots in use. -/
def timeouts (nowMs : UInt32) (slots : List DelayedEvent) : List Nat :=
  (slots.filter (·.used)).map fun event => timeoutUntil nowMs event.dueMs

/-- Each slot in use has its timeout. -/
theorem mem_timeouts {nowMs : UInt32} {slots : List DelayedEvent} {k : Nat} :
    k ∈ timeouts nowMs slots ↔
      ∃ event ∈ slots, event.used = true ∧ timeoutUntil nowMs event.dueMs = k := by
  unfold timeouts
  simp only [List.mem_map, List.mem_filter, and_assoc]

/-- There is none exactly if no slot is in use. -/
theorem timeouts_eq_nil_iff {nowMs : UInt32} {slots : List DelayedEvent} :
    timeouts nowMs slots = [] ↔ ∀ event ∈ slots, event.used = false := by
  unfold timeouts
  simp only [List.map_eq_nil_iff, List.filter_eq_nil_iff, Bool.not_eq_true]

theorem timeouts_cons_free {nowMs : UInt32} {event : DelayedEvent} {rest : List DelayedEvent}
    (h : event.used = false) : timeouts nowMs (event :: rest) = timeouts nowMs rest := by
  unfold timeouts
  rw [List.filter_cons_of_neg (by rw [h]; exact Bool.false_ne_true)]

theorem timeouts_cons_used {nowMs : UInt32} {event : DelayedEvent} {rest : List DelayedEvent}
    (h : event.used = true) :
    timeouts nowMs (event :: rest) = timeoutUntil nowMs event.dueMs :: timeouts nowMs rest := by
  unfold timeouts
  rw [List.filter_cons_of_pos h, List.map_cons]

/-- A free slot changes nothing. -/
theorem shorter_free {nowMs : UInt32} {event : DelayedEvent} (h : event.used = false)
    (next : Option Nat) : shorter nowMs next event = next := if_pos h

/-- The first slot in use sets the timeout. -/
theorem shorter_none {nowMs : UInt32} {event : DelayedEvent} (h : event.used = true) :
    shorter nowMs none event = some (timeoutUntil nowMs event.dueMs) :=
  if_neg (by rw [h]; exact Bool.noConfusion)

/-- Each further one may shorten it. -/
theorem shorter_some {nowMs : UInt32} {event : DelayedEvent} (h : event.used = true) (least : Nat) :
    shorter nowMs (some least) event = some (min least (timeoutUntil nowMs event.dueMs)) := by
  unfold shorter
  rw [if_neg (by rw [h]; exact Bool.noConfusion)]
  dsimp only
  split
  · rw [Nat.min_eq_right (by omega)]
  · rw [Nat.min_eq_left (by omega)]

/-- The scan behind a slot in use keeps the least. -/
theorem foldl_shorter_some (nowMs : UInt32) (slots : List DelayedEvent) (least : Nat) :
    slots.foldl (shorter nowMs) (some least) = some ((timeouts nowMs slots).foldl min least) := by
  induction slots generalizing least with
  | nil => rfl
  | cons event rest ih =>
    rw [List.foldl_cons]
    cases hused : event.used with
    | false => rw [shorter_free hused, timeouts_cons_free hused, ih]
    | true => rw [shorter_some hused, timeouts_cons_used hused, List.foldl_cons, ih]

/-- The scan finds the least timeout of the slots in use. -/
theorem foldl_shorter_none (nowMs : UInt32) (slots : List DelayedEvent) :
    slots.foldl (shorter nowMs) none = (timeouts nowMs slots).min? := by
  induction slots with
  | nil => rfl
  | cons event rest ih =>
    rw [List.foldl_cons]
    cases hused : event.used with
    | false => rw [shorter_free hused, timeouts_cons_free hused, ih]
    | true => rw [shorter_none hused, timeouts_cons_used hused, foldl_shorter_some, List.min?_cons']

/-- `rtbus_next_timeout_ms` is the least timeout, if there is one. -/
theorem nextTimeoutMs_eq (b : Bus Task Service) :
    nextTimeoutMs b = (timeouts (uptime32 b) b.delayed).min? :=
  foldl_shorter_none (uptime32 b) b.delayed

/-- The bound of the sleep: -1 without a timer, 0 when the check would post, and else the time until
the first timer and not a moment more. -/
theorem next_timeout_agrees (b : Bus Task Service)
    (near : ∀ event ∈ b.delayed, event.used = true → Near (uptime32 b) event.dueMs) :
    (nextTimeoutMs b = none ↔ ∀ event ∈ b.delayed, event.used = false) ∧
    (nextTimeoutMs b = some 0 ↔ tried b ≠ []) ∧
    ∀ k, nextTimeoutMs b = some k → 0 < k →
      (∀ j < k, ∀ event ∈ b.delayed, event.used = true →
        dueReached (uptime32 b + UInt32.ofNat j) event.dueMs = false) ∧
      ∃ event ∈ b.delayed, event.used = true ∧
        dueReached (uptime32 b + UInt32.ofNat k) event.dueMs = true := by
  rw [nextTimeoutMs_eq]
  refine ⟨List.min?_eq_none_iff.trans timeouts_eq_nil_iff, ?_, fun k hk hpos => ?_⟩
  · rw [List.min?_eq_some_iff, mem_timeouts, tried, Ne, triedFrom_eq_nil_iff]
    constructor
    · rintro ⟨⟨event, hevent, hused, hzero⟩, _⟩ hnone
      have hdue := (timeoutUntil_eq_zero_iff (near event hevent hused)).mp hzero
      exact Bool.false_ne_true ((hnone event hevent hused).symm.trans hdue)
    · intro hsome
      refine ⟨?_, fun _ _ => Nat.zero_le _⟩
      by_contra hnone
      refine hsome fun event hevent hused => Bool.eq_false_iff.mpr fun hdue => hnone ?_
      exact ⟨event, hevent, hused,
        (timeoutUntil_eq_zero_iff (near event hevent hused)).mpr hdue⟩
  · obtain ⟨hmem, hleast⟩ := List.min?_eq_some_iff.mp hk
    obtain ⟨event, hevent, hused, rfl⟩ := mem_timeouts.mp hmem
    refine ⟨fun j hj other hother husedOther => ?_, event, hevent, hused,
      (dueReached_of_timeoutUntil hpos).2⟩
    have hle := hleast _ (mem_timeouts.mpr ⟨other, hother, husedOther, rfl⟩)
    exact (dueReached_of_timeoutUntil (Nat.lt_of_lt_of_le hpos hle)).1 j (Nat.lt_of_lt_of_le hj hle)

/-- Two milliseconds before the clock turns over, with an event that is due three behind that. -/
def turningBus : Bus Task Service :=
  { bootBus with
    delayed := [DelayedEvent.zero, { DelayedEvent.zero with used := true, dueMs := 3 }]
    uptime := 2 ^ 32 - 2 }

theorem turningBus_timeout : nextTimeoutMs turningBus = some 5 ∧
    (nextTimeoutMs turningBus = some 0 ↔ tried turningBus ≠ []) := by
  refine ⟨by decide +kernel, (next_timeout_agrees turningBus fun event hevent _ => ?_).2.1⟩
  have hnear : ∀ event ∈ turningBus.delayed, Near (uptime32 turningBus) event.dueMs := by
    decide +kernel
  exact hnear event hevent

end Rtbus.Native
