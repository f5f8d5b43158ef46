import Rtbus.Emos.Waiting

/-!
# Emptying the queues

What happens to the events that are queued in any reachable state if nothing more is posted: calls of
`rtbus_process` hand them to their tasks one by one, the more urgent ones first and those of one
priority in their order, the due delayed events behind those already queued (`drained`). As many
calls as there are events empty the queues.

A bus with empty queues has its whole pool again (`idle_capacity`): what it takes is what the fresh
pool would take, whatever has happened since `rtbus_init`. Nothing is lost over time.
-/

namespace Rtbus.Emos

open Rtbus.Pool Rtbus.Tiling Rtbus.Priority Fifo

variable {H X : Type} {payloadMax : Nat}

/-- A log entry that is the call of its task's handler with a context. -/
def Handles (b : Backend H) (e : LogEntry H) (ctx : Ctx) : Prop :=
  ∃ entry f, e = .called f ctx ∧ b.find ctx.taskId = some entry ∧ entry.taskEntry = some f

/-- So many calls of `rtbus_process` during which nothing is posted. -/
def quietCalls (n : Nat) : List Op := List.replicate n (.process [] [])

/-! ## Delayed events -/

theorem dueSlots_cons (nowMs : UInt32) (e : DelayedEvent) (l : List DelayedEvent) :
    dueSlots nowMs (e :: l) = if e.used = false ∨ dueReached nowMs e.dueMs = false then
      dueSlots nowMs l else e :: dueSlots nowMs l := by
  unfold dueSlots
  split
  · rename_i h
    exact List.filter_cons_of_neg (by rwa [Bool.not_eq_true, Bool.and_eq_false_iff])
  · rename_i h
    exact List.filter_cons_of_pos (by rwa [← Bool.not_eq_false, Bool.and_eq_false_iff])

/-- Without due events nothing is moved. -/
theorem moveDueEvents_of_none_due {s : Bus H X} (none_due : dueSlots (uptime32 s) s.delayed = []) :
    moveDueEvents s = some (s, .ok) := by
  have key : ∀ (nowMs : UInt32) (l : List DelayedEvent), dueSlots nowMs l = [] →
      moveDueFrom nowMs l s = some (s, l, .ok) := by
    intro nowMs l
    induction l with
    | nil => exact fun _ => rfl
    | cons e l ih =>
      intro h
      rw [dueSlots_cons] at h
      split at h
      · rename_i hdue
        rw [moveDueFrom, if_pos hdue, ih h]
      · cases h
  unfold moveDueEvents
  rw [key _ _ none_due]

/-- Once the due events have been moved, none is due. -/
theorem moveDueFrom_leaves {nowMs : UInt32} {s s' : Bus H X} {slots slots' : List DelayedEvent}
    (call : moveDueFrom nowMs slots s = some (s', slots', .ok)) : dueSlots nowMs slots' = [] := by
  induction slots generalizing s slots' with
  | nil =>
    cases call
    rfl
  | cons e rest ih =>
    unfold moveDueFrom at call
    by_cases hdue : e.used = false ∨ dueReached nowMs e.dueMs = false
    · rw [if_pos hdue] at call
      cases hrest : moveDueFrom nowMs rest s with
      | none =>
        rw [hrest] at call
        cases call
      | some x =>
        obtain ⟨s₁, rest₁, ret₁⟩ := x
        rw [hrest] at call
        cases call
        rw [dueSlots_cons, if_pos hdue]
        exact ih hrest
    · rw [if_neg hdue] at call
      cases hpost : emosPost s e.args with
      | none =>
        rw [hpost] at call
        cases call
      | some x =>
        obtain ⟨s₁, ret₁⟩ := x
        rw [hpost] at call
        cases ret₁ with
        | err _ => cases call
        | ok =>
          dsimp only at call
          cases hrest : moveDueFrom nowMs rest s₁ with
          | none =>
            rw [hrest] at call
            cases call
          | some x =>
            obtain ⟨s₂, rest₂, ret₂⟩ := x
            rw [hrest] at call
            cases call
            rw [dueSlots_cons, if_pos (.inl rfl)]
            exact ih hrest

/-! ## Draining -/

/-- Without due events, a call during which nothing is posted hands over the first event. -/
theorem quiet_process {s : Bus H (Log H)} {bs : List Block} {q : Nat → List Node}
    (payloadMax : Nat) (r : Ready s bs q) (slots : SlotsFit s)
    (none_due : dueSlots (uptime32 s) s.delayed = []) {p : Nat} {ctx : Ctx} {rest : List Ctx}
    (first : First (contents s) p ctx rest) :
    ∃ s' e bs' q', (Op.process [] []).run payloadMax s = some s' ∧ Ready s' bs' q' ∧ SlotsFit s' ∧
      s'.backend = s.backend ∧ dueSlots (uptime32 s') s'.delayed = [] ∧
      s'.rest = s.rest ++ [e] ∧ Handles s.backend e ctx ∧
      contents s' = Function.update (contents s) p rest := by
  obtain ⟨s', outcome, log, bs', q', hres, r', slots', frame, hrest, handed⟩ :=
    dispatchOrPoll_handed payloadMax r slots [] fun _ h => by cases h
  have hcount : s.entryCount ≠ 0 := Nat.pos_iff_ne_zero.mp r.count_pos
  have hrun : (Op.process [] []).run payloadMax s = some s' := by
    simp only [Op.run, processWith, rtbusProcess, moveDueEvents_of_none_due none_due, emosProcess,
      hookOf, runActs, if_neg hcount, Option.map_some, hres]
  obtain ⟨hdelayed, huptime⟩ := frame.quiet rfl
  have hdue : dueSlots (uptime32 s') s'.delayed = [] := by
    unfold uptime32
    rw [hdelayed, huptime]
    exact none_due
  have full : ¬ ∀ p, contents s p = [] := by
    intro empty
    have := first.head
    rw [empty p] at this
    cases this
  generalize hc : contents s' = c' at handed
  cases handed with
  | dispatched first' found htask noted =>
    obtain ⟨rfl, rfl, rfl⟩ := first.unique first'
    cases noted
    refine ⟨s', _, bs', q', hrun, r', slots', frame.backend, hdue, hrest,
      ⟨_, _, rfl, found, htask⟩, ?_⟩
    rw [hc]
    exact enqueue_nil _
  | polled empty _ => exact absurd empty full
  | idle empty => exact absurd empty full

/-- Without due events, as many calls as there are events hand over all of them in order. -/
theorem drained_of_none_due (payloadMax : Nat) {s : Bus H (Log H)} {bs : List Block}
    {q : Nat → List Node} (r : Ready s bs q) (slots : SlotsFit s)
    (none_due : dueSlots (uptime32 s) s.delayed = []) {backlog : List Ctx}
    (all : upTo (contents s) taskPriorityNumber = backlog) :
    ∃ s' log, Run.Trace (Bus.AnyStep payloadMax) s (quietCalls backlog.length) s' ∧
      s'.rest = s.rest ++ log ∧ List.Forall₂ (Handles s.backend) log backlog ∧
      ∀ p, contents s' p = [] := by
  induction backlog generalizing s bs q with
  | nil =>
    refine ⟨s, [], .nil, (List.append_nil _).symm, .nil, fun p => ?_⟩
    by_cases hp : p < taskPriorityNumber
    · exact upTo_eq_nil.mp all p hp
    · rw [r.contents_nil_iff]
      exact r.queued.high p (Nat.not_lt.mp hp)
  | cons ctx backlog ih =>
    obtain ⟨p, _, rest, first, hbacklog⟩ := first_of_upTo all
    obtain ⟨s₁, e, bs₁, q₁, hrun, r₁, slots₁, hback, hdue, hrest, hhandles, hcontents⟩ :=
      quiet_process payloadMax r slots none_due first
    obtain ⟨s₂, log, htrace, hrest₂, hlog, hempty⟩ := ih r₁ slots₁ hdue (by rw [hcontents, hbacklog])
    rw [hback] at hlog
    refine ⟨s₂, e :: log, .cons ⟨fun _ h => (by cases h), hrun⟩ htrace, ?_, .cons hhandles hlog,
      hempty⟩
    rw [hrest₂, hrest, List.append_assoc]
    rfl

/-- From every reachable state in which the due events can be moved, calls of `rtbus_process` during
which nothing is posted hand all queued and due events to their tasks, the more urgent ones first
and those of one priority in their order, one in each call, and leave empty queues. -/
theorem drained (payloadMax : Nat) (s : Bus H (Log H)) (h : s.Reachable payloadMax)
    (movable : DueMovable s) (backlog : List Ctx)
    (all : upTo (enqueue (contents s) (tagged s.backend ((moved s).map Prod.snd)))
      taskPriorityNumber = backlog) :
    ∃ s' log, Run.Trace (Bus.AnyStep payloadMax) s (quietCalls backlog.length) s' ∧
      s'.rest = s.rest ++ log ∧ List.Forall₂ (Handles s.backend) log backlog ∧
      ∀ p, contents s' p = [] := by
  obtain ⟨⟨bs, q, r⟩, slots⟩ := reachable_ready h
  obtain ⟨s₁, slots₁, ret, bs₁, q₁, hres, same, r₁, _, hfit₁, hok⟩ :=
    moveDueFrom_spec (uptime32 s) r s.delayed slots
  obtain rfl : ret = .ok := by
    obtain ⟨bs', v, hmovable⟩ := movable
    refine hok.mpr ?_
    rwa [r.queued.valid.tiles.unique v.tiles]
  have hmoved := moveDueFrom_contents r slots hres 0
  have hnone : dueSlots (uptime32 s₁) slots₁ = [] := by
    unfold uptime32
    rw [same.uptime]
    exact moveDueFrom_leaves hres
  have hall : upTo (contents { s₁ with delayed := slots₁ }) taskPriorityNumber = backlog := by
    rw [← all]
    exact congrArg (upTo · taskPriorityNumber) hmoved
  obtain ⟨s', log, htrace, hrest, hlog, hempty⟩ := drained_of_none_due payloadMax
    (s := { s₁ with delayed := slots₁ }) (r₁.congr rfl rfl rfl rfl) hfit₁ hnone hall
  change s'.rest = s₁.rest ++ log at hrest
  change List.Forall₂ (Handles s₁.backend) log backlog at hlog
  rw [same.rest] at hrest
  rw [same.backend] at hlog
  cases backlog with
  | nil =>
    -- nothing is queued, and nothing is due
    refine ⟨s, [], .nil, (List.append_nil _).symm, .nil, fun p => ?_⟩
    by_cases hp : p < taskPriorityNumber
    · exact (List.append_eq_nil_iff.mp (upTo_eq_nil.mp all p hp)).1
    · rw [r.contents_nil_iff]
      exact r.queued.high p (Nat.not_lt.mp hp)
  | cons ctx backlog =>
    -- the first call moves the due events
    refine ⟨s', log, ?_, hrest, hlog, hempty⟩
    cases htrace with
    | cons step rest =>
      refine .cons ⟨step.1, ?_⟩ rest
      have hmove : moveDueEvents s = some ({ s₁ with delayed := slots₁ }, .ok) := by
        unfold moveDueEvents
        rw [hres]
      have hmove₁ := moveDueEvents_of_none_due (s := { s₁ with delayed := slots₁ }) hnone
      rw [← step.2]
      simp only [Op.run, processWith, rtbusProcess, hmove, hmove₁]

/-- The bus with one task is drained of its `INIT` event by one call. -/
theorem oneTask_drained :
    ∃ (s s' : Bus Unit (Log Unit)) (log : Log Unit),
      Run.Trace (Bus.AnyStep 32) s (quietCalls 1) s' ∧ s'.rest = s.rest ++ log ∧
        List.Forall₂ (Handles s.backend) log [⟨1, ctxSysShift sysInit, []⟩] := by
  obtain ⟨s, start, hdue, hall⟩ : ∃ s : Bus Unit (Log Unit), s.Start ∧
      dueSlots (uptime32 s) s.delayed = [] ∧
      upTo (enqueue (contents s) (tagged s.backend ((moved s).map Prod.snd))) taskPriorityNumber =
        [⟨1, ctxSysShift sysInit, []⟩] :=
    ⟨_, ⟨Bus.boot (.table none), 0x20001000, 256, some oneTask, by decide, rfl⟩, rfl,
      by decide +kernel⟩
  have hs : s.Reachable 32 := .start start
  obtain ⟨⟨bs, q, r⟩, _⟩ := reachable_ready hs
  obtain ⟨s', log, htrace, hrest, hlog, _⟩ :=
    drained 32 s hs ⟨bs, r.queued.valid, by rw [hdue]; rfl⟩ _ hall
  exact ⟨s, s', log, htrace, hrest, hlog⟩

/-! ## The pool of an empty bus -/

/-- A post that the bus takes when its pool has `room` bytes and no block. -/
def FreshTakes (b : Backend H) (room : Nat) (args : PostArgs) : Prop :=
  (b.find args.taskId).isSome ∧ (args.payload = none → args.payloadLen = 0) ∧
    16 + args.payloadLen.toNat ≤ 65535 ∧ (16 + args.payloadLen.toNat + 3) / 4 * 4 + 8 ≤ room

/-- A bus that started as `s₀`: its registry and the bounds of its pool have stayed. -/
structure Since (s₀ s : Bus H X) : Prop where
  ready : ∃ bs q, Ready s bs q
  slots : SlotsFit s
  backend : s.backend = s₀.backend
  confined : Confined s₀.heap s.heap poolId

theorem Since.step {s₀ s s' : Bus H (Log H)} (h : Since s₀ s) {op : Op}
    (step : Bus.AnyStep payloadMax s op s') : Since s₀ s' := by
  obtain ⟨⟨bs, q, r⟩, slots, hback, conf⟩ := h
  obtain ⟨fits, hrun⟩ := step
  cases op with
  | act a =>
    obtain ⟨s₁, ret, bs', q', hres, acted⟩ := Act.run_acted payloadMax r a
      (fits a (List.mem_singleton.mpr rfl))
    cases hres.symm.trans hrun
    exact ⟨⟨bs', q', acted.kept.ready⟩, acted.kept.slots slots, acted.kept.backend.trans hback,
      conf.trans acted.kept.confined⟩
  | process hook handler =>
    obtain ⟨s₁, outcome, log, bs', q', hres, r', slots', hback', conf', _⟩ :=
      processWith_processed payloadMax r slots fits
    have hrun' : (Op.process hook handler).run payloadMax s = some s₁ := by
      simp only [Op.run, hres, Option.map_some]
    cases hrun'.symm.trans hrun
    exact ⟨⟨bs', q', r'⟩, slots', hback'.trans hback, conf.trans conf'⟩

theorem Since.trace {s₀ s s' : Bus H (Log H)} (h : Since s₀ s) {ops : List Op}
    (run : Run.Trace (Bus.AnyStep payloadMax) s ops s') : Since s₀ s' := by
  induction run with
  | nil => exact h
  | cons step _ ih => exact ih (h.step step)

/-- The room of the pool after a successful `rtbus_init`. -/
theorem rtbusInit_room {s s' : Bus H X} {poolAddr poolSize : Nat}
    {entryTbl : Option (EntryTable H)} (range : poolAddr + poolSize ≤ 2 ^ 32)
    (h : rtbusInit s poolAddr poolSize entryTbl = some (s', .ok)) :
    poolRoom s'.heap = freshRoom poolAddr poolSize ∧
      (0 < freshRoom poolAddr poolSize → (s'.heap.pools poolId).active = true) := by
  unfold rtbusInit emosInit emosInitPool at h
  by_cases hpool : poolAddr = null ∨ poolSize = 0
  · rw [if_pos hpool] at h
    cases h
  · rw [if_neg hpool] at h
    dsimp only at h
    obtain ⟨v, _⟩ := @initMemPool_spec s.heap poolId _ _ (by decide) range
    obtain ⟨hroom, hactive⟩ := poolRoom_fresh s.heap range fun h => hpool (.inl h)
    cases hb : (resetDelayedEvents s).backend.reset.init entryTbl with
    | mk backend rest =>
      obtain ⟨ret, count⟩ := rest
      rw [hb] at h
      cases ret with
      | err e => cases h
      | ok =>
        obtain ⟨registry, hcount⟩ := Backend.init_ok hb
        dsimp only at h
        obtain ⟨s₁, ret, hres, same, _⟩ := postInitEvents_tracks
          (s := { resetDelayedEvents s with
            heap := initMemPool s.heap poolId poolAddr poolSize, taskTbl := fun _ => null,
            pollNextIndex := 0, backend := backend, entryCount := count })
          (a := ⟨[], []⟩) ⟨queued_fresh v, registry, hcount, fun _ _ h => by cases h⟩
          ⟨⟨.nil, fun _ h => by cases h⟩, fun _ => rfl⟩ count 0
        rw [show (resetDelayedEvents s).heap = s.heap from rfl, hres] at h
        cases ret with
        | err e => cases h
        | ok =>
          cases h
          obtain ⟨hbase, htop, hact⟩ := same.confined.fields
          refine ⟨?_, fun hpos => hact.trans (hactive hpos)⟩
          rw [← hroom]
          unfold poolRoom
          rw [hbase, htop]

/-- With empty queues the pool has no blocks. -/
theorem Ready.no_blocks {s : Bus H X} {bs : List Block} {q : Nat → List Node} (r : Ready s bs q)
    (idle : ∀ p, contents s p = []) : bs = [] := by
  have none_live : s.heap.live poolId bs = [] := by
    refine List.eq_nil_iff_forall_not_mem.mpr fun b hb => ?_
    obtain ⟨p, n, hn, _⟩ := r.queued.all b hb
    rw [(r.contents_nil_iff p).mp (idle p)] at hn
    cases hn
  exact r.queued.valid.coalesced.eq_nil ((payloads_eq_nil_iff _ _).mp none_live)

/-- After any run from a successful `rtbus_init`, a bus with empty queues takes a post exactly if its
task is registered, its payload is given, and its block fits into the fresh pool. -/
theorem idle_capacity (payloadMax : Nat) (s s₀ s₁ : Bus H (Log H)) (poolAddr poolSize : Nat)
    (entryTbl : Option (EntryTable H)) (range : poolAddr + poolSize ≤ 2 ^ 32)
    (init : rtbusInit s poolAddr poolSize entryTbl = some (s₀, .ok)) (ops : List Op)
    (run : Run.Trace (Bus.AnyStep payloadMax) s₀ ops s₁)
    (idle : ∀ p < taskPriorityNumber, contents s₁ p = []) (args : PostArgs) (fits : args.Fits) :
    (∃ s₂, rtbusPost s₁ args = some (s₂, .ok)) ↔
      FreshTakes s₀.backend (freshRoom poolAddr poolSize) args := by
  obtain ⟨ready₀, slots₀⟩ := reachable_ready
    (.start ⟨s, poolAddr, poolSize, entryTbl, range, init⟩ : s₀.Reachable payloadMax)
  obtain ⟨⟨bs, q, r⟩, _, hback, conf⟩ :=
    Since.trace ⟨ready₀, slots₀, rfl, Confined.refl s₀.heap poolId⟩ run
  have empty : ∀ p, contents s₁ p = [] := by
    intro p
    by_cases hp : p < taskPriorityNumber
    · exact idle p hp
    · rw [r.contents_nil_iff]
      exact r.queued.high p (Nat.not_lt.mp hp)
  obtain rfl := r.no_blocks empty
  obtain ⟨hroom, hactive⟩ := rtbusInit_room range init
  obtain ⟨hbase, htop, hact⟩ := conf.fields
  have hroom₁ : poolRoom s₁.heap = freshRoom poolAddr poolSize := by
    rw [← hroom]
    unfold poolRoom
    rw [hbase, htop]
  have haccepts : (∃ bs, accepts s₁ [] args = some bs) ↔
      FreshTakes s₀.backend (freshRoom poolAddr poolSize) args := by
    unfold accepts FreshTakes place
    rw [hroom₁, hback, hact, extent_nil, Nat.zero_add]
    constructor
    · rintro ⟨bs, h⟩
      split at h
      · rename_i hcond
        split at h
        · rename_i hfits
          exact ⟨hcond.1, hcond.2.1, hcond.2.2.1, hfits⟩
        · cases h
      · cases h
    · rintro ⟨hreg, hgiven, hsmall, hfits⟩
      exact ⟨_, (if_pos ⟨hreg, hgiven, hsmall, hactive (by omega)⟩).trans (if_pos hfits)⟩
  rw [← haccepts]
  obtain ⟨s₂, ret, hres, posted⟩ := rtbusPost_spec r args fits
  rw [hres]
  rcases posted.2 with ⟨hnone, ⟨e, rfl⟩, _⟩ | ⟨bs', _, _, hsome, rfl, _⟩
  · refine iff_of_false ?_ ?_
    · rintro ⟨_, h⟩
      cases h
    · rintro ⟨bs, h⟩
      rw [hnone] at h
      cases h
  · exact iff_of_true ⟨s₂, rfl⟩ ⟨bs', hsome⟩

/-- A pool of 256 bytes takes a payload of 200 bytes again after the `INIT` event is gone. -/
theorem oneTask_capacity :
    ∃ (s₀ s₁ : Bus Unit (Log Unit)) (args : PostArgs), args.payloadLen = 200 ∧
      rtbusInit (Bus.boot (.table none)) 0x20001000 256 (some oneTask) = some (s₀, .ok) ∧
      Run.Trace (Bus.AnyStep 32) s₀ (quietCalls 1) s₁ ∧ ∃ s₂, rtbusPost s₁ args = some (s₂, .ok) := by
  obtain ⟨s₀, init, s₁, hrun, hidle, hfind⟩ : ∃ s₀ : Bus Unit (Log Unit),
      rtbusInit (Bus.boot (.table none)) 0x20001000 256 (some oneTask) = some (s₀, .ok) ∧
      ∃ s₁, (Op.process [] []).run 32 s₀ = some s₁ ∧
        (∀ p < taskPriorityNumber, contents s₁ p = []) ∧ (s₀.backend.find 1).isSome :=
    ⟨_, rfl, _, rfl, by decide +kernel, rfl⟩
  have run : Run.Trace (Bus.AnyStep 32) s₀ (quietCalls 1) s₁ :=
    .cons ⟨fun _ h => (by cases h), hrun⟩ .nil
  obtain ⟨args, htask, hlen, hgiven⟩ : ∃ args : PostArgs, args.taskId = 1 ∧
      args.payloadLen = 200 ∧ args.payload ≠ none := by
    refine ⟨⟨1, 0, some (List.replicate 200 0), 200, fun bytes h => ?_⟩, rfl, rfl, nofun⟩
    rw [← Option.some.inj h, List.length_replicate]
    decide
  have takes : FreshTakes s₀.backend (freshRoom 0x20001000 256) args := by
    refine ⟨by rw [htask]; exact hfind, fun h => absurd h hgiven, ?_, ?_⟩
    · rw [hlen]
      decide
    · rw [hlen]
      decide
  have fits : args.Fits := by
    unfold PostArgs.Fits
    rw [hlen]
    decide
  exact ⟨s₀, s₁, args, hlen, init, run,
    (idle_capacity 32 _ s₀ s₁ _ _ _ (by decide) init _ run hidle args fits).mpr takes⟩

end Rtbus.Emos
