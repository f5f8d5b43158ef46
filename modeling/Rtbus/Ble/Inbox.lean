import Rtbus.Ble.Connections
import Rtbus.Native.Mailbox

/-!
# Hearing of the connection

The callbacks of the stack change the connection of the service first, and emit their event then; the
event waits in `native_event_msgq` until the application takes it. So the application is behind, and
it may miss events: the queue is full, there is no callback yet, or an upgrade has thrown the queue
away with the application that was to get it.

`Inbox` is the service, its events, and an application that follows them. What the application will
know once it has taken everything that is on its way is the connection of the service, or it has
missed something (`Told`). Almost every event of the service tells all there is to know about the
connection, so one that gets through makes up for all that were missed, and from then on the
application knows the connection until the next one is missed (`connection_known`).
-/

namespace Rtbus.Ble

open Rtbus.Native (RuntimeEvent AppEvent AppThread Mailbox eventQueueDepth runtimeEventValueMax)

/-- The service, the events that its callbacks have still to emit, the application thread with the
queue, and the connection that the running application knows. -/
structure Inbox where
  link : Link
  owed : List RuntimeEvent
  box : Mailbox
  view : UInt32

/-- What happens: something with the service, the emission of an event that is owed, or something
else with the application thread. -/
inductive InboxEvent
  | ble (e : LinkEvent)
  | emit
  | app (e : AppEvent)

/-- The call of `native_service_emit_event` for an event. -/
def emitCall (event : RuntimeEvent) : AppEvent :=
  .emitPut event.group event.tag (if event.value = [] then none else some event.value)
    (UInt16.ofNat event.value.length)

/-- The events that have left the queue between two states. -/
def Inbox.left (box box' : Mailbox) : List (RuntimeEvent × Native.EventFate) :=
  box'.settled.drop box.settled.length

/-- What the application knows after a step of its thread: it follows the events that it is handed.
A new application knows nothing. -/
def Inbox.heard (box box' : Mailbox) (view : UInt32) : UInt32 :=
  ((left box box').filterMap fun x => if x.2 = .handed then some x.1 else none).foldl observe
    (if box'.app.service.era = box.app.service.era then view else 0)

namespace Inbox

variable {cfg : Native.Config} {config : Config} {c c' : Inbox}

/-- A step of the application thread. -/
def appStep (cfg : Native.Config) (e : AppEvent) (c : Inbox) : Option Inbox :=
  (Mailbox.step cfg e c.box).map fun box =>
    { c with box := box, view := heard c.box box c.view }

/-- An event happens. -/
def step (cfg : Native.Config) (config : Config) : InboxEvent → Inbox → Option Inbox
  | .ble e, c => (c.link.step config e).map fun link =>
    { c with link := link, owed := c.owed ++ e.emitted config }
  | .emit, c =>
    match c.owed with
    | [] => none
    | event :: owed => appStep cfg (emitCall event) { c with owed := owed }
  | .app e, c => appStep cfg e c

/-- What is known of the events: there is one connection at a time, the service is initialised
before the first one, and nobody else emits events of its group. -/
def Promised (c : Inbox) : InboxEvent → Prop
  | .ble e => e.Promised c.link.live ∧ (∀ conn, e = .connected 0 conn → c.link.live = []) ∧
    (e = .task .init → c.link.live = [])
  | .emit => True
  | .app e => ∀ group tag value len, e = .emitPut group tag value len → group ≠ 1

/-- A step. -/
def Step (cfg : Native.Config) (config : Config) (c : Inbox) (e : InboxEvent) (c' : Inbox) : Prop :=
  step cfg config e c = some c' ∧ c.Promised e

/-- At boot. -/
def Start (c : Inbox) : Prop := c.link = .boot ∧ c.owed = [] ∧ c.box.Start ∧ c.view = 0

/-- What is on its way to the application. -/
def coming (c : Inbox) : List RuntimeEvent := c.box.app.service.eventMsgq ++ c.owed

/-- Once it has taken everything that is on its way, the application knows the connection. -/
def Told (c : Inbox) : Prop := c.coming.foldl observe c.view = c.link.state.currentConn

/-- A step in which no event is lost: there is room for one that is emitted, and one that leaves the
queue is handed to the application. -/
def LosslessStep (cfg : Native.Config) (config : Config) (c : Inbox) (e : InboxEvent) (c' : Inbox) :
    Prop :=
  Step cfg config c e c' ∧ (e = .emit → c.box.app.service.eventMsgq.length < eventQueueDepth) ∧
    c'.box.app.service.era = c.box.app.service.era ∧ ∀ x ∈ left c.box c'.box, x.2 = .handed

end Inbox

/-! ## What an event tells -/

/-- An event that tells the connection, whatever was known before. -/
def Decisive (event : RuntimeEvent) : Prop := ∀ view view', observe view event = observe view' event

/-- An event that tells nothing about it. -/
def Neutral (event : RuntimeEvent) : Prop := ∀ view, observe view event = view

/-- An event of another group tells nothing. -/
theorem neutral_of_group {event : RuntimeEvent} (other : event.group ≠ 1) : Neutral event := by
  intro view
  have hnone : ∀ tag len, bleValue tag len event = none := fun tag len => if_pos (.inl other)
  unfold observe runtimeEventIsBleConnected runtimeEventIsBleDisconnected runtimeEventIsBleRecycled
    runtimeEventIsBleConnectFailed
  simp only [hnone]
  rfl

/-- Behind an event that tells the connection it does not matter what was known before. -/
theorem foldl_decisive {events : List RuntimeEvent} (h : ∃ event ∈ events, Decisive event)
    (view view' : UInt32) : events.foldl observe view = events.foldl observe view' := by
  induction events generalizing view view' with
  | nil =>
    obtain ⟨_, hmem, _⟩ := h
    cases hmem
  | cons event events ih =>
    obtain ⟨found, hmem, hdecisive⟩ := h
    rcases List.mem_cons.mp hmem with rfl | hmem
    · rw [List.foldl_cons, List.foldl_cons, hdecisive view view']
    · exact ih ⟨found, hmem, hdecisive⟩ _ _

theorem foldl_neutral {events : List RuntimeEvent} (h : ∀ event ∈ events, Neutral event)
    (view : UInt32) : events.foldl observe view = view := by
  induction events generalizing view with
  | nil => rfl
  | cons event events ih =>
    rw [List.foldl_cons, h event List.mem_cons_self]
    exact ih (fun e he => h e (List.mem_cons_of_mem _ he)) view

/-- A callback emits one small event at most, which tells the connection or nothing about it. -/
theorem emitted_cases (config : Config) (e : LinkEvent) :
    e.emitted config = [] ∨ ∃ event, e.emitted config = [event] ∧ event.value.length ≤ 4 ∧
      (Decisive event ∨ Neutral event) := by
  have tells : ∀ {tag : UInt16} {value : List UInt8}, tag ≠ 1 →
      ((runtimeEventIsBleDisconnected (bleEvent tag value)).isSome ||
        runtimeEventIsBleRecycled (bleEvent tag value) ||
        (runtimeEventIsBleConnectFailed (bleEvent tag value)).isSome) = true →
      Decisive (bleEvent tag value) := by
    intro tag value hother htold view view'
    rw [observe_other view value hother, observe_other view' value hother, htold]
    rfl
  cases e with
  | connected err conn =>
    refine .inr ?_
    unfold LinkEvent.emitted
    dsimp only
    split
    · exact ⟨_, rfl, Nat.le_of_ble_eq_true rfl, .inl (tells (by decide) rfl)⟩
    · refine ⟨_, rfl, Nat.le_of_ble_eq_true rfl, .inl fun view view' => ?_⟩
      rw [observe_connected, observe_connected]
  | disconnected conn reason =>
    exact .inr ⟨_, rfl, Nat.le_of_ble_eq_true rfl, .inl (tells (by decide) rfl)⟩
  | recycled => exact .inr ⟨_, rfl, Nat.le_of_ble_eq_true rfl, .inl (tells (by decide) rfl)⟩
  | securityChanged conn level err =>
    unfold LinkEvent.emitted
    dsimp only
    split
    · exact .inr ⟨_, rfl, Nat.le_of_ble_eq_true rfl, .inr fun view =>
        @observe_other view 4 [level, err.code] (by decide)⟩
    · exact .inl rfl
  | _ => exact .inl rfl

/-- The events that something emits tell what it does to the connection. -/
theorem foldl_emitted {config : Config} {l l' : Link} {e : LinkEvent} (h : l.Agrees)
    (step : SingleStep config l e l') (boot : e = .task .init → l.live = []) :
    (e.emitted config).foldl observe l.state.currentConn = l'.state.currentConn := by
  have agrees := h.step step
  obtain ⟨⟨step, _⟩, _⟩ := step
  obtain ⟨s, _, rfl⟩ := Option.map_eq_some_iff.mp step
  have hknown : e.known l.view = l.state.currentConn := by
    by_cases hinit : e = .task .init
    · have hzero : l.state.currentConn = 0 := by
        by_contra hne
        have hlive := h.held.current hne
        rw [boot hinit] at hlive
        cases hlive
      rw [hinit, hzero]
      rfl
    · rw [← h.view]
      cases e with
      | task event =>
        cases event with
        | init => exact absurd rfl hinit
        | _ => rfl
      | _ => rfl
  rw [← hknown]
  exact agrees.view

namespace Inbox

variable {cfg : Native.Config} {config : Config} {c c' : Inbox}

/-- What holds in every run: the events that are owed lead to the connection of the service, if one
of them tells it. -/
structure Sound (c : Inbox) : Prop where
  agrees : c.link.Agrees
  small : ∀ event ∈ c.owed, event.value.length ≤ 4
  owed : (∃ event ∈ c.owed, Decisive event) → ∀ view,
    c.owed.foldl observe view = c.link.state.currentConn

/-- What a step of the application thread does. -/
theorem appStep_cases {e : AppEvent} (step : appStep cfg e c = some c') :
    ∃ app, AppThread.step cfg e c.box.app = some app ∧ left c.box c'.box = c.box.app.leaving app e ∧
      c' = { c with box := c'.box, view := heard c.box c'.box c.view } ∧ c'.box.app = app := by
  obtain ⟨box, hbox, rfl⟩ := Option.map_eq_some_iff.mp step
  obtain ⟨app, happ, rfl⟩ := Option.map_eq_some_iff.mp hbox
  exact ⟨app, happ, List.drop_left, rfl, rfl⟩

/-- The service does something. -/
theorem ble_cases {e : LinkEvent} (step : Step cfg config c (.ble e) c') :
    ∃ link, SingleStep config c.link e link ∧ (e = .task .init → c.link.live = []) ∧
      c' = { c with link := link, owed := c.owed ++ e.emitted config } := by
  obtain ⟨step, promised, single, boot⟩ := step
  obtain ⟨link, hlink, rfl⟩ := Option.map_eq_some_iff.mp step
  exact ⟨link, ⟨⟨hlink, promised⟩, single⟩, boot, rfl⟩

/-- An event that is owed is emitted. -/
theorem emit_cases (step : Step cfg config c .emit c') :
    ∃ event owed, c.owed = event :: owed ∧
      appStep cfg (emitCall event) { c with owed := owed } = some c' := by
  have step := step.1
  unfold Inbox.step at step
  dsimp only at step
  split at step
  · cases step
  · exact ⟨_, _, by assumption, step⟩

theorem Sound.step {e : InboxEvent} (h : c.Sound) (step : Step cfg config c e c') : c'.Sound := by
  cases e with
  | ble e =>
    obtain ⟨link, hstep, boot, rfl⟩ := ble_cases step
    have hconn := foldl_emitted h.agrees hstep boot
    refine ⟨h.agrees.step hstep, fun event hevent => ?_, fun hdecisive view => ?_⟩
    · rcases List.mem_append.mp hevent with hevent | hevent
      · exact h.small event hevent
      · rcases emitted_cases config e with hnone | ⟨event', hone, hsmall, _⟩
        · rw [hnone] at hevent
          cases hevent
        · rw [hone, List.mem_singleton] at hevent
          exact hevent ▸ hsmall
    · show (c.owed ++ e.emitted config).foldl observe view = link.state.currentConn
      rw [List.foldl_append, ← hconn]
      -- an event that tells the connection is emitted now, or is owed already
      by_cases hnow : ∃ event ∈ e.emitted config, Decisive event
      · exact foldl_decisive hnow _ _
      · obtain ⟨event, hevent, hd⟩ := hdecisive
        rcases List.mem_append.mp hevent with hevent | hevent
        · rw [h.owed ⟨event, hevent, hd⟩ view]
        · exact absurd ⟨event, hevent, hd⟩ hnow
  | emit =>
    obtain ⟨event, owed, howed, hstep⟩ := emit_cases step
    obtain ⟨_, _, _, hc', _⟩ := appStep_cases hstep
    rw [hc']
    refine ⟨h.agrees, fun e he => h.small e (howed ▸ List.mem_cons_of_mem _ he),
      fun hdecisive view => ?_⟩
    obtain ⟨found, hmem, hd⟩ := hdecisive
    have hall := h.owed ⟨found, howed ▸ List.mem_cons_of_mem _ hmem, hd⟩ view
    rw [howed, List.foldl_cons] at hall
    exact (foldl_decisive ⟨found, hmem, hd⟩ _ _).trans hall
  | app e =>
    obtain ⟨_, _, _, hc', _⟩ := appStep_cases (step.1 : appStep cfg e c = some c')
    rw [hc']
    exact ⟨h.agrees, h.small, h.owed⟩

theorem reachable_sound (h : Run.Reachable Start (Step cfg config) c) : c.Sound := by
  refine Run.Reachable.invariant (I := Sound) ?_ (fun _ _ _ => Sound.step) h
  rintro c ⟨hlink, howed, _⟩
  refine ⟨hlink ▸ .boot, fun event hevent => ?_, fun ⟨event, hevent, _⟩ => ?_⟩ <;>
  · rw [howed] at hevent
    cases hevent

/-! ## What the application will know -/

/-- A small event comes into the queue as it is, if there is room. -/
theorem admitted_emitCall {a : AppThread} {event : RuntimeEvent} (small : event.value.length ≤ 4)
    (room : a.service.eventMsgq.length < eventQueueDepth) :
    a.admitted (emitCall event) = [event] := by
  have hlen : (UInt16.ofNat event.value.length).toNat = event.value.length :=
    UInt16.toNat_ofNat_of_lt' (Nat.lt_of_le_of_lt small (by decide))
  have hvalue : (if event.value = [] then none else some event.value).getD [] = event.value := by
    split
    · exact Eq.symm (by assumption)
    · rfl
  have htakes : ¬ a.Refuses (if event.value = [] then none else some event.value)
      (UInt16.ofNat event.value.length) := by
    unfold AppThread.Refuses runtimeEventValueMax
    rw [hlen]
    rintro (hlong | ⟨hne, hnull⟩ | hfull)
    · exact absurd (Nat.lt_of_lt_of_le hlong small) (by decide)
    · split at hnull
      · rename_i hnil
        exact hne (by rw [hnil]; rfl)
      · cases hnull
    · exact absurd room (Nat.not_lt.mpr hfull)
  have hok := ((AppThread.emitEvent_cases a event.group event.tag _ _).resolve_left
    fun h => htakes h.1).2
  unfold emitCall AppThread.admitted
  dsimp only
  rw [hok, if_pos rfl, hvalue, hlen, List.take_length]

/-- Nobody else emits an event that tells something about the connection. -/
theorem neutral_admitted {a : AppThread} {e : AppEvent}
    (other : ∀ group tag value len, e = .emitPut group tag value len → group ≠ 1) :
    ∀ event ∈ a.admitted e, Neutral event := by
  intro event hevent
  unfold AppThread.admitted at hevent
  split at hevent
  · split at hevent
    · rw [List.mem_singleton.mp hevent]
      exact neutral_of_group (other _ _ _ _ rfl)
    · cases hevent
  · cases hevent

/-- With no event lost, the application has followed all that have left the queue. -/
theorem heard_lossless {box box' : Mailbox} (view : UInt32)
    (era : box'.app.service.era = box.app.service.era)
    (handed : ∀ x ∈ left box box', x.2 = .handed) :
    heard box box' view = ((left box box').map Prod.fst).foldl observe view := by
  unfold heard
  rw [if_pos era]
  congr 1
  generalize left box box' = l at handed ⊢
  induction l with
  | nil => rfl
  | cons x l ih =>
    rw [List.filterMap_cons, if_pos (handed x List.mem_cons_self),
      ih fun y hy => handed y (List.mem_cons_of_mem _ hy)]
    rfl

/-- What the application will know does not change while events move on. -/
theorem coming_appStep {e : AppEvent} (step : appStep cfg e c = some c')
    (era : c'.box.app.service.era = c.box.app.service.era)
    (handed : ∀ x ∈ left c.box c'.box, x.2 = .handed) :
    c'.coming.foldl observe c'.view =
      (c.box.app.service.eventMsgq ++ c.box.app.admitted e ++ c.owed).foldl observe c.view := by
  obtain ⟨app, happ, hleft, hc', rfl⟩ := appStep_cases step
  have hview : c'.view = heard c.box c'.box c.view := by rw [hc']
  have howed : c'.owed = c.owed := by rw [hc']
  unfold coming
  rw [hview, heard_lossless c.view era handed, hleft, howed, ← List.foldl_append,
    (AppThread.Settles.step happ).queue, List.append_assoc]

/-- With no event lost, what will be known stays right. -/
theorem Told.step {e : InboxEvent} (sound : c.Sound) (h : c.Told)
    (step : LosslessStep cfg config c e c') : c'.Told := by
  obtain ⟨step, room, era, handed⟩ := step
  unfold Told at h ⊢
  cases e with
  | ble e =>
    obtain ⟨link, hstep, boot, rfl⟩ := ble_cases step
    show (c.box.app.service.eventMsgq ++ (c.owed ++ e.emitted config)).foldl observe c.view =
      link.state.currentConn
    rw [← List.append_assoc, List.foldl_append]
    exact (congrArg ((e.emitted config).foldl observe) h).trans
      (foldl_emitted sound.agrees hstep boot)
  | emit =>
    obtain ⟨event, owed, howed, hstep⟩ := emit_cases step
    have hcoming := coming_appStep hstep era handed
    have hconn : c'.link = c.link := by
      obtain ⟨_, _, _, hc', _⟩ := appStep_cases hstep
      rw [hc']
    rw [hcoming, hconn, ← h]
    show (c.box.app.service.eventMsgq ++ c.box.app.admitted (emitCall event) ++ owed).foldl _ _ = _
    unfold coming
    rw [admitted_emitCall (sound.small event (howed ▸ List.mem_cons_self)) (room rfl), howed,
      List.append_assoc, List.singleton_append]
  | app e =>
    have hstep : appStep cfg e c = some c' := step.1
    have hconn : c'.link = c.link := by
      obtain ⟨_, _, _, hc', _⟩ := appStep_cases hstep
      rw [hc']
    rw [coming_appStep hstep era handed, hconn, ← h]
    unfold coming
    rw [List.foldl_append, List.foldl_append, foldl_neutral (neutral_admitted step.2),
      ← List.foldl_append]

/-- A small event that finds room is put behind the others. -/
theorem emitCall_queue {a app : AppThread} {event : RuntimeEvent} (small : event.value.length ≤ 4)
    (room : a.service.eventMsgq.length < eventQueueDepth)
    (step : AppThread.step cfg (emitCall event) a = some app) :
    app.service.eventMsgq = a.service.eventMsgq ++ [event] ∧ app.service.era = a.service.era ∧
      a.leaving app (emitCall event) = [] := by
  have hadmitted := admitted_emitCall small room
  have happ : a.emitPut event.group event.tag (if event.value = [] then none else some event.value)
      (UInt16.ofNat event.value.length) = app := Option.some.inj step
  rcases AppThread.emitPut_cases a event.group event.tag
      (if event.value = [] then none else some event.value) (UInt16.ofNat event.value.length) with
    ⟨_, _, hnone⟩ | ⟨_, event', hone, hput⟩
  · cases hadmitted.symm.trans hnone
  · cases hadmitted.symm.trans hone
    rw [← happ, hput]
    exact ⟨rfl, rfl, if_pos rfl⟩

/-- An event that tells the connection makes up for all that were missed before, if it is the last
one and gets into the queue. -/
theorem Told.of_emit {event : RuntimeEvent} (sound : c.Sound) (howed : c.owed = [event])
    (decisive : Decisive event) (room : c.box.app.service.eventMsgq.length < eventQueueDepth)
    (step : Step cfg config c .emit c') : c'.Told := by
  obtain ⟨event', owed, howed', hstep⟩ := emit_cases step
  obtain ⟨rfl, rfl⟩ := List.cons.inj (howed.symm.trans howed')
  obtain ⟨app, happ, _, hc', rfl⟩ := appStep_cases hstep
  obtain ⟨hqueue, _⟩ :=
    emitCall_queue (sound.small event (howed ▸ List.mem_singleton.mpr rfl)) room happ
  have hconn := sound.owed ⟨event, howed ▸ List.mem_singleton.mpr rfl, decisive⟩
    (c.box.app.service.eventMsgq.foldl observe c'.view)
  have hlink : c'.link = c.link := by rw [hc']
  have howed' : c'.owed = [] := by rw [hc']
  unfold Told coming
  rw [hlink, howed', hqueue, List.append_nil, List.foldl_append, ← howed]
  exact hconn

/-- Whatever has happened before, one event that tells the connection and gets into the queue as the
last one is enough: as long as no event is lost from then on, the application knows the connection of
the service whenever it has taken all events, and asking for security with the connection that it
knows reaches the stack. At boot it knows it. -/
theorem connection_known (h : Run.Reachable Start (Step cfg config) c) :
    (∀ event c', c.owed = [event] → Decisive event →
      c.box.app.service.eventMsgq.length < eventQueueDepth → Step cfg config c .emit c' →
      c'.Told) ∧
    ∀ es c', c.Start ∨ c.Told → Run.Trace (LosslessStep cfg config) c es c' → c'.coming = [] →
      c'.view = c'.link.state.currentConn ∧ (config.smp = true → c'.view ≠ 0 → ∀ ret level,
        setSecurityNow config ret c'.view level c'.link.state =
          (ret, [.setSecurity c'.view level])) := by
  have sound := reachable_sound h
  refine ⟨fun event c' howed decisive room => Told.of_emit sound howed decisive room, ?_⟩
  rintro es c' told run hquiet
  replace told : c.Told := told.elim (fun ⟨hlink, howed, ⟨⟨hservice, _⟩, _⟩, hview⟩ => by
    unfold Told coming
    rw [hlink, howed, hservice, hview]
    rfl) id
  have told' : c'.Told := by
    induction run with
    | nil => exact told
    | cons step run ih =>
      exact ih (h.step step.1) (sound.step step.1) hquiet (Told.step sound told step)
  unfold Told at told'
  rw [hquiet] at told'
  have hview : c'.view = c'.link.state.currentConn := told'
  refine ⟨hview, fun hsmp hne ret level => ?_⟩
  unfold setSecurityNow
  rw [if_pos hsmp, if_neg]
  rintro (hzero | hzero | hother)
  · exact hne hzero
  · exact hne (hview.trans hzero)
  · exact hother hview

/-! ## A run -/

/-- At boot. -/
def boot : Inbox := { link := .boot, owed := [], box := .boot, view := 0 }

/-- Whether what happens is as promised. -/
def promised (c : Inbox) : InboxEvent → Bool
  | .ble (.connected _ conn) => conn ≠ 0 && c.link.live.isEmpty
  | .ble (.disconnected conn _) => c.link.live.contains conn
  | .ble _ => false
  | .emit => true
  | .app (.emitPut _ _ _ _) => false
  | .app _ => true

theorem Step.of_test {e : InboxEvent} (check : c.promised e = true)
    (step : Inbox.step cfg config e c = some c') : Step cfg config c e c' := by
  refine ⟨step, ?_⟩
  unfold promised at check
  split at check
  · rename_i err conn
    obtain ⟨hne, hempty⟩ := Bool.and_eq_true_iff.mp check
    have hempty := List.isEmpty_iff.mp hempty
    exact ⟨fun _ => ⟨of_decide_eq_true hne, hempty ▸ List.not_mem_nil⟩, fun _ _ => hempty, nofun⟩
  · exact ⟨List.contains_iff_mem.mp check, nofun, nofun⟩
  · cases check
  · trivial
  · cases check
  · rename_i e hother
    rintro group tag value len rfl
    exact absurd rfl (hother group tag value len)

/-- Whether no event is lost. -/
def lossless (cfg : Native.Config) (config : Config) (c : Inbox) (e : InboxEvent) : Bool :=
  c.promised e && decide (c.box.app.service.eventMsgq.length < eventQueueDepth) &&
    (Inbox.step cfg config e c).all fun c' =>
      c'.box.app.service.era == c.box.app.service.era &&
        (left c.box c'.box).all fun x => x.2 == .handed

theorem LosslessStep.of_test {e : InboxEvent} (check : lossless cfg config c e = true)
    (step : Inbox.step cfg config e c = some c') : LosslessStep cfg config c e c' := by
  unfold lossless at check
  rw [step] at check
  obtain ⟨check, hkept⟩ := Bool.and_eq_true_iff.mp check
  obtain ⟨hpromised, hroom⟩ := Bool.and_eq_true_iff.mp check
  obtain ⟨hera, hleft⟩ := Bool.and_eq_true_iff.mp hkept
  exact ⟨.of_test hpromised step, fun _ => of_decide_eq_true hroom, beq_iff_eq.mp hera,
    fun x hx => beq_iff_eq.mp (List.all_eq_true.mp hleft x hx)⟩

/-- An upgrade makes the application miss that a peer has connected; then the peer leaves. -/
def untilMissed : List InboxEvent :=
  [.app (.start ⟨.ok, 0x08020080, fun _ => 0⟩), .ble (.connected 0 0x20), .emit, .app .forceStop,
    .app (.resume ⟨.ok, 0x08020080, fun _ => 0⟩), .app .turn, .app .turn,
    .app (.callOnEvent (some 1)), .ble (.disconnected 0x20 0x13)]

/-- Another peer connects, and the application takes both events. -/
def untilKnown : List InboxEvent :=
  [.ble (.connected 0 0x21), .emit, .app (.callDelay 100), .app .turn, .app .returnCode, .app .turn]

/-- What is owed when the other peer has left. -/
theorem owed_of_test {owed : List RuntimeEvent}
    (h : (owed.map fun event => (event.group, event.tag, event.value)) = [(1, 2, [0x13])]) :
    owed = [bleEvent 2 [0x13]] := by
  match owed, h with
  | [⟨_, _, _⟩], h =>
    cases h
    rfl

/-- The application that has missed a connection knows the next one. -/
theorem next_connection_known : ∃ c : Inbox,
    Run.Reachable Start (Step Mailbox.smallConfig ⟨true, true⟩) c ∧ c.view = 0x21 ∧
      setSecurityNow ⟨true, true⟩ 0 0x21 2 c.link.state = (0, [.setSecurity 0x21 2]) := by
  obtain ⟨c, run, htest⟩ := Run.exists_of_follow (Inbox.step Mailbox.smallConfig ⟨true, true⟩)
    promised untilMissed boot
    (fun c => ((c.owed.map fun event => (event.group, event.tag, event.value)) ==
        [(1, 2, [0x13])] && decide (c.box.app.service.eventMsgq.length < eventQueueDepth)) &&
      (Inbox.step Mailbox.smallConfig ⟨true, true⟩ .emit c).any fun c' =>
        (Run.follow (Inbox.step Mailbox.smallConfig ⟨true, true⟩)
          (lossless Mailbox.smallConfig ⟨true, true⟩) untilKnown c').any fun c'' =>
            c''.view == 0x21 && c''.coming.isEmpty) (by decide +kernel)
  have reach : Run.Reachable Start (Step Mailbox.smallConfig ⟨true, true⟩) c :=
    .follow (fun _ _ _ => Step.of_test) (.start ⟨rfl, rfl, Mailbox.boot_start, rfl⟩) run
  obtain ⟨howed, htest⟩ := Bool.and_eq_true_iff.mp htest
  obtain ⟨howed, hroom⟩ := Bool.and_eq_true_iff.mp howed
  obtain ⟨c', hemit, htest⟩ := (Option.any_eq_true _ _).mp htest
  obtain ⟨c'', hfollow, htest⟩ := (Option.any_eq_true _ _).mp htest
  obtain ⟨hview, hquiet⟩ := Bool.and_eq_true_iff.mp htest
  have hview := beq_iff_eq.mp hview
  have step : Step Mailbox.smallConfig ⟨true, true⟩ c .emit c' := ⟨hemit, trivial⟩
  have decisive : Decisive (bleEvent 2 [0x13]) := fun view view' =>
    (@observe_other view 2 [0x13] (by decide)).trans
      (@observe_other view' 2 [0x13] (by decide)).symm
  have told := (connection_known reach).1 _ c' (owed_of_test (beq_iff_eq.mp howed)) decisive
    (of_decide_eq_true hroom) step
  have known : Run.Trace (LosslessStep Mailbox.smallConfig ⟨true, true⟩) c' untilKnown c'' :=
    .of_follow (fun _ _ _ => LosslessStep.of_test) hfollow
  have hknown := (connection_known (reach.step step)).2 _ _ (.inr told) known
    (List.isEmpty_iff.mp hquiet)
  refine ⟨c'', .follow (fun _ _ _ check step => (LosslessStep.of_test check step).1)
    (reach.step step) hfollow, hview, ?_⟩
  rw [← hview]
  exact hknown.2 rfl (by rw [hview]; decide) 0 2

end Inbox

end Rtbus.Ble
