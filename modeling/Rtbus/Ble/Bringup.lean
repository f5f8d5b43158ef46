import Rtbus.Ble.Invariant

/-!
# Starting to advertise

The stack is enabled once: `bt_enable` answers `-EALREADY` from then on, and
`rtbus_ble_adv_start_now` takes that for a failure. So an attempt that fails behind `bt_enable`, at
the callbacks or at the settings, leaves a device that no later attempt can start (`Stuck`), and it
is the only thing that does (`advStart_retryable_iff`).
-/

namespace Rtbus.Ble

/-- The service on its stack, which is enabled or not. -/
structure Device where
  state : State
  enabled : Bool

/-- A device at boot. -/
def Device.boot : Device := { state := .initial, enabled := false }

/-- The codes as the stack answers them: once it is enabled, `bt_enable` answers `-EALREADY`. -/
def Device.answered (d : Device) (codes : Codes) : Codes :=
  { codes with enable := if d.enabled then -EALREADY else codes.enable }

/-- `rtbus_ble_adv_start_now` on the stack. -/
def attempt (config : Config) (codes : Codes) (d : Device) : Int × Device :=
  let answered := d.answered codes
  let called : Bool := ¬ d.state.ready ∧
    (appGattRegisterPending codes.registerPending d.state).1 = 0
  let started := advStartNow config answered d.state
  (started.1, { state := started.2, enabled := d.enabled || (called && answered.enable = 0) })

/-- One event on the stack. -/
def Device.step (config : Config) (event : Event) (d : Device) : Option Device :=
  match event with
  | .advStart codes => some (attempt config codes d).2
  | event => (process config event d.state).map fun s => { d with state := s }

/-- Events in a row. -/
def Device.run (config : Config) : List Event → Device → Option Device
  | [], d => some d
  | event :: rest, d => (d.step config event).bind (Device.run config rest)

/-- The steps that are still needed succeed. -/
structure Codes.Succeed (config : Config) (codes : Codes) (d : Device) : Prop where
  registerPending : ∀ i < d.state.appGattCount, (d.state.appGatts i).registered = false →
    codes.registerPending i = 0
  enable : d.enabled = false → codes.enable = 0
  authInfo : config.smp = true → registerAuthInfoCallbacks codes.authInfo = 0
  settingsLoad : config.settings = true → codes.settingsLoad = 0
  registerReady : ∀ i < d.state.appGattCount, (d.state.appGatts i).registered = false →
    codes.registerReady i = 0
  advStart : d.state.advertising = false → codes.advStart = 0

/-- An attempt in which these steps succeed starts advertising. -/
def Retryable (config : Config) (d : Device) : Prop :=
  ∀ codes : Codes, codes.Succeed config d → (attempt config codes d).1 = 0 ∧
    (attempt config codes d).2.state.ready = true ∧
    (attempt config codes d).2.state.advertising = true

/-- The event is an attempt that enables the stack and fails behind that, before the service is
ready. -/
def Strands (config : Config) (event : Event) (d : Device) : Prop :=
  ∃ codes, event = .advStart codes ∧ d.state.ready = false ∧ d.enabled = false ∧
    (appGattRegisterPending codes.registerPending d.state).1 = 0 ∧ codes.enable = 0 ∧
    ((config.smp = true ∧ registerAuthInfoCallbacks codes.authInfo ≠ 0) ∨
      (config.settings = true ∧ codes.settingsLoad ≠ 0))

/-- One of the events strands the device. -/
def Stranding (config : Config) : List Event → Device → Prop
  | [], _ => False
  | event :: rest, d =>
    Strands config event d ∨ ∃ d', d.step config event = some d' ∧ Stranding config rest d'

/-- The stack is enabled and the service does not know. -/
def Stuck (d : Device) : Prop := d.enabled = true ∧ d.state.ready = false

/-- A service that stays unregistered was so before. -/
theorem appGattRegisterReady_registered {ret : Int} {gatt : AppGatt}
    (h : (appGattRegisterReady ret gatt).2.registered = false) : gatt.registered = false := by
  unfold appGattRegisterReady at h
  split at h
  · exact h
  · split at h
    · exact h
    · cases h

/-- The loop over the slots touches nothing else, and does not unregister. -/
theorem appGattRegisterPendingFrom_frame (rets : Nat → Int) : ∀ (n i : Nat) (s : State),
    (appGattRegisterPendingFrom rets n i s).2.ready = s.ready ∧
    (appGattRegisterPendingFrom rets n i s).2.advertising = s.advertising ∧
    ∀ k, ((appGattRegisterPendingFrom rets n i s).2.appGatts k).registered = false →
      (s.appGatts k).registered = false
  | 0, _, _ => ⟨rfl, rfl, fun _ h => h⟩
  | n + 1, i, s => by
    have hset : ∀ k, ((s.setGatt i (appGattRegisterReady (rets i) (s.appGatts i)).2).appGatts
        k).registered = false → (s.appGatts k).registered = false := by
      intro k h
      change (Function.update s.appGatts i _ k).registered = false at h
      by_cases hk : k = i
      · subst hk
        rw [Function.update_self] at h
        exact appGattRegisterReady_registered h
      · rwa [Function.update_of_ne hk] at h
    unfold appGattRegisterPendingFrom
    dsimp only
    split
    · exact ⟨rfl, rfl, hset⟩
    · obtain ⟨hready, hadvertising, hregistered⟩ := appGattRegisterPendingFrom_frame rets n (i + 1)
        (s.setGatt i (appGattRegisterReady (rets i) (s.appGatts i)).2)
      exact ⟨hready, hadvertising, fun k h => hset k (hregistered k h)⟩

/-- The loop succeeds when the stack takes what is not registered. -/
theorem appGattRegisterPendingFrom_ok {rets : Nat → Int} : ∀ {n i : Nat} {s : State},
    (∀ k < i + n, (s.appGatts k).registered = false → rets k = 0) →
    (appGattRegisterPendingFrom rets n i s).1 = 0
  | 0, _, _, _ => rfl
  | n + 1, i, s, h => by
    have hone : (appGattRegisterReady (rets i) (s.appGatts i)).1 = 0 := by
      unfold appGattRegisterReady
      cases hregistered : (s.appGatts i).registered with
      | true => rfl
      | false => rw [if_neg Bool.false_ne_true, h i (by omega) hregistered]; rfl
    unfold appGattRegisterPendingFrom
    dsimp only
    rw [if_neg (not_not.mpr hone)]
    refine appGattRegisterPendingFrom_ok fun k hk hregistered => h k (by omega) ?_
    change (Function.update s.appGatts i _ k).registered = false at hregistered
    by_cases heq : k = i
    · subst heq
      rw [Function.update_self] at hregistered
      exact appGattRegisterReady_registered hregistered
    · rwa [Function.update_of_ne heq] at hregistered

/-- The advertising data is not part of whether the stack is up. -/
theorem adSyncServiceUuid_ready (s : State) : (adSyncServiceUuid s).ready = s.ready := by
  unfold adSyncServiceUuid
  split <;> rfl

theorem adSyncServiceUuid_advertising (s : State) :
    (adSyncServiceUuid s).advertising = s.advertising := by
  unfold adSyncServiceUuid
  split <;> rfl

/-- The second half does not touch `ready`. -/
theorem advBegin_ready (codes : Codes) (s : State) : (advBegin codes s).2.ready = s.ready := by
  have hframe := (appGattRegisterPendingFrom_frame codes.registerReady s.appGattCount 0 s).1
  have hsync := (adSyncServiceUuid_ready (appGattRegisterPending codes.registerReady s).2).trans hframe
  unfold advBegin
  dsimp only
  split
  · exact hframe
  · split
    · exact hsync
    · split
      · exact hsync
      · exact hsync

/-- It succeeds when the stack takes what is not registered and starts to advertise. -/
theorem advBegin_ok (codes : Codes) {s : State}
    (hregister : ∀ k < s.appGattCount, (s.appGatts k).registered = false →
      codes.registerReady k = 0)
    (hstart : s.advertising = false → codes.advStart = 0) :
    (advBegin codes s).1 = 0 ∧ (advBegin codes s).2.advertising = true := by
  have hpending : (appGattRegisterPending codes.registerReady s).1 = 0 :=
    appGattRegisterPendingFrom_ok fun k hk => hregister k (by omega)
  have hframe := (appGattRegisterPendingFrom_frame codes.registerReady s.appGattCount 0 s).2.1
  have hsync :=
    (adSyncServiceUuid_advertising (appGattRegisterPending codes.registerReady s).2).trans hframe
  unfold advBegin
  dsimp only
  rw [if_neg (not_not.mpr hpending), hsync]
  cases hadvertising : s.advertising with
  | true => exact ⟨rfl, hsync.trans hadvertising⟩
  | false =>
    rw [if_neg Bool.false_ne_true, if_neg (not_not.mpr (hstart hadvertising))]
    exact ⟨rfl, rfl⟩

/-- One of the steps of the first half fails. -/
def BringUpFails (config : Config) (codes : Codes) (s : State) : Prop :=
  (appGattRegisterPending codes.registerPending s).1 ≠ 0 ∨ codes.enable ≠ 0 ∨
    (config.smp = true ∧ registerAuthInfoCallbacks codes.authInfo ≠ 0) ∨
    (config.settings = true ∧ codes.settingsLoad ≠ 0)

/-- Where one of its calls fails, bringing up returns the error and the stack is not ready. -/
theorem advBringUp_fails (config : Config) {codes : Codes} {s : State} (hready : s.ready = false)
    (h : BringUpFails config codes s) :
    (advBringUp config codes s).1 ≠ 0 ∧ (advBringUp config codes s).2.ready = false := by
  have hframe := (appGattRegisterPendingFrom_frame codes.registerPending s.appGattCount 0 s).1
  have hstays := hframe.trans hready
  unfold advBringUp
  rw [if_neg (by rw [hready]; exact Bool.false_ne_true)]
  dsimp only
  split
  · next hpending => exact ⟨hpending, hstays⟩
  · next hpending =>
    split
    · next henable => exact ⟨henable, hstays⟩
    · next henable =>
      split
      · next hauth => exact ⟨hauth.2, hstays⟩
      · next hauth =>
        split
        · next hsettings => exact ⟨hsettings.2, hstays⟩
        · next hsettings =>
          obtain h | h | h | h := h
          · exact absurd h hpending
          · exact absurd h henable
          · exact absurd h hauth
          · exact absurd h hsettings

/-- Where none fails, it returns 0 with the stack ready. -/
theorem advBringUp_ok {config : Config} {codes : Codes} {s : State}
    (h : s.ready = true ∨ ¬ BringUpFails config codes s) :
    (advBringUp config codes s).1 = 0 ∧ (advBringUp config codes s).2.ready = true ∧
    (advBringUp config codes s).2.advertising = s.advertising ∧
    (advBringUp config codes s).2.appGattCount = s.appGattCount ∧
    ∀ k, ((advBringUp config codes s).2.appGatts k).registered = false →
      (s.appGatts k).registered = false := by
  unfold advBringUp
  by_cases hready : s.ready = true
  · rw [if_pos hready]
    exact ⟨rfl, hready, rfl, rfl, fun _ h => h⟩
  · have hfails := h.resolve_left hready
    obtain ⟨_, hadvertising, hregistered⟩ :=
      appGattRegisterPendingFrom_frame codes.registerPending s.appGattCount 0 s
    have hcount := appGattRegisterPendingFrom_count codes.registerPending s.appGattCount 0 s
    rw [if_neg hready]
    dsimp only
    rw [if_neg fun h => hfails (.inl h), if_neg fun h => hfails (.inr (.inl h)),
      if_neg fun h => hfails (.inr (.inr (.inl h))), if_neg fun h => hfails (.inr (.inr (.inr h)))]
    exact ⟨rfl, rfl, hadvertising, hcount, hregistered⟩

/-- A request to advertise fails with the bringing up. -/
theorem advStartNow_fails (config : Config) {codes : Codes} {s : State} (hready : s.ready = false)
    (h : BringUpFails config codes s) :
    (advStartNow config codes s).1 ≠ 0 ∧ (advStartNow config codes s).2.ready = false := by
  have hup := advBringUp_fails config hready h
  unfold advStartNow
  dsimp only
  rw [if_pos hup.1]
  exact hup

/-- It leaves the stack ready where that succeeds, advertising or not. -/
theorem advStartNow_ready {config : Config} {codes : Codes} {s : State}
    (h : s.ready = true ∨ ¬ BringUpFails config codes s) :
    (advStartNow config codes s).2.ready = true := by
  have hup := advBringUp_ok h
  unfold advStartNow
  dsimp only
  rw [if_neg (not_not.mpr hup.1), advBegin_ready]
  exact hup.2.1

/-! ## Every event -/

/-- Registering a service does not bring up the stack. -/
theorem appGattNotifyRegisterNow_ready {ret : Int} {offer : Option ServiceDef} {s s' : State}
    {code : Int} (h : appGattNotifyRegisterNow ret offer s = some (code, s')) :
    s'.ready = s.ready := by
  unfold appGattNotifyRegisterNow at h
  cases offer with
  | none => cases h; rfl
  | some d =>
    dsimp only at h
    split at h
    · cases h; rfl
    · split at h
      · cases h; rfl
      · split at h
        · cases h
        · cases h; rfl
        · split at h
          · split at h
            · cases h; exact adSyncServiceUuid_ready _
            · cases h; exact adSyncServiceUuid_ready _
          · cases h; exact adSyncServiceUuid_ready _

/-- Nor does initialising the GAP. -/
theorem gapInitNow_ready (gapDef : Option GapDef) (s : State) :
    (gapInitNow gapDef s).2.ready = s.ready := by
  unfold gapInitNow
  cases gapDef with
  | none => rfl
  | some d =>
    dsimp only
    split
    · rfl
    · split <;> rfl

/-- Nor does setting a value. -/
theorem appGattValueSetNow_ready (isSubscribed : Bool) (notify : Int)
    (req : Option GattValueSetReq) (s : State) :
    (appGattValueSetNow isSubscribed notify req s).2.ready = s.ready := by
  unfold appGattValueSetNow
  cases req with
  | none => rfl
  | some req =>
    dsimp only
    split
    · rfl
    · split
      · rfl
      · split
        · rfl
        · split <;> rfl

/-- Only an attempt to start makes the service ready or not. -/
theorem process_ready {config : Config} {event : Event} {s s' : State}
    (hevent : ∀ codes, event ≠ .advStart codes) (h : process config event s = some s') :
    s'.ready = s.ready := by
  cases event with
  | init => cases h; exact adSyncServiceUuid_ready _
  | advStart codes => exact absurd rfl (hevent codes)
  | gapInit gapDef => cases h; exact gapInitNow_ready gapDef s
  | gattRegister ret offer =>
    obtain ⟨⟨code, s''⟩, heq, rfl⟩ := Option.map_eq_some_iff.mp h
    exact appGattNotifyRegisterNow_ready heq
  | gattValueSet isSubscribed notify req =>
    cases h
    exact appGattValueSetNow_ready isSubscribed notify req s
  | cccChanged ccc value =>
    cases h
    unfold appGattCccChanged
    split <;> rfl
  | connected err conn => cases h; rfl
  | disconnected conn =>
    cases h
    unfold disconnected
    split <;> rfl
  | recycled => cases h; rfl

theorem ealready_ne : -EALREADY ≠ 0 := by decide

/-- Every other event leaves the stack alone. -/
theorem Device.step_other {config : Config} {event : Event} {d : Device}
    (hevent : ∀ codes, event ≠ .advStart codes) : d.step config event =
      (process config event d.state).map fun s => { d with state := s } := by
  cases event with
  | advStart codes => exact absurd rfl (hevent codes)
  | _ => rfl

/-- When an attempt finds the stack enabled afterwards. -/
theorem attempt_enabled (config : Config) (codes : Codes) (d : Device) :
    (attempt config codes d).2.enabled = true ↔ d.enabled = true ∨
      (d.state.ready = false ∧ (appGattRegisterPending codes.registerPending d.state).1 = 0 ∧
        (d.answered codes).enable = 0) := by
  change (d.enabled || (decide (¬ d.state.ready = true ∧ _) && decide ((d.answered codes).enable = 0)))
    = true ↔ _
  rw [Bool.or_eq_true, Bool.and_eq_true, decide_eq_true_iff, decide_eq_true_iff, and_assoc,
    Bool.not_eq_true]

/-- Nothing gets a stuck device going. -/
theorem Stuck.step {config : Config} {event : Event} {d d' : Device} (h : Stuck d)
    (hstep : d.step config event = some d') : Stuck d' := by
  obtain ⟨henabled, hready⟩ := h
  by_cases hevent : ∃ codes, event = .advStart codes
  · obtain ⟨codes, rfl⟩ := hevent
    cases hstep
    have hfails : BringUpFails config (d.answered codes) d.state := by
      refine .inr (.inl ?_)
      change (if d.enabled then -EALREADY else codes.enable) ≠ 0
      rw [if_pos henabled]
      exact ealready_ne
    exact ⟨(attempt_enabled config codes d).mpr (.inl henabled),
      (advStartNow_fails config hready hfails).2⟩
  · have hother : ∀ codes, event ≠ .advStart codes := not_exists.mp hevent
    rw [Device.step_other hother] at hstep
    obtain ⟨s', hs', rfl⟩ := Option.map_eq_some_iff.mp hstep
    exact ⟨henabled, (process_ready hother hs').trans hready⟩

/-- A device that is off answers `bt_enable` with the code given. -/
theorem answered_enable {d : Device} (h : d.enabled = false) (codes : Codes) :
    (d.answered codes).enable = codes.enable := by
  change (if d.enabled then -EALREADY else codes.enable) = codes.enable
  rw [h, if_neg Bool.false_ne_true]

/-- An attempt that strands the device leaves it stuck. -/
theorem Strands.stuck {config : Config} {event : Event} {d d' : Device}
    (h : Strands config event d) (hstep : d.step config event = some d') : Stuck d' := by
  obtain ⟨codes, rfl, hready, henabled, hpending, henable, hbehind⟩ := h
  cases hstep
  refine ⟨(attempt_enabled config codes d).mpr (.inr ⟨hready, hpending, ?_⟩),
    (advStartNow_fails config hready (show BringUpFails config (d.answered codes) d.state from
      .inr (.inr hbehind))).2⟩
  rw [answered_enable henabled, henable]

/-- Any other event does not. -/
theorem not_stuck_step {config : Config} {event : Event} {d d' : Device} (h : ¬ Stuck d)
    (hstrands : ¬ Strands config event d) (hstep : d.step config event = some d') : ¬ Stuck d' := by
  rintro ⟨henabled', hready'⟩
  by_cases hevent : ∃ codes, event = .advStart codes
  · obtain ⟨codes, rfl⟩ := hevent
    cases hstep
    have hfails : ¬ (d.state.ready = true ∨ ¬ BringUpFails config (d.answered codes) d.state) := by
      intro hup
      exact Bool.false_ne_true (hready'.symm.trans (advStartNow_ready hup))
    obtain ⟨hready, hfails⟩ := not_or.mp hfails
    have hready := Bool.eq_false_iff.mpr hready
    have henabled : d.enabled = false := Bool.eq_false_iff.mpr fun henabled => h ⟨henabled, hready⟩
    obtain hwas | ⟨_, hpending, henable⟩ := (attempt_enabled config codes d).mp henabled'
    · exact absurd hwas (Bool.eq_false_iff.mp henabled)
    · obtain hfails | hfails | hfails := not_not.mp hfails
      · exact hfails hpending
      · exact hfails henable
      · rw [answered_enable henabled] at henable
        exact hstrands ⟨codes, rfl, hready, henabled, hpending, henable, hfails⟩
  · have hother : ∀ codes, event ≠ .advStart codes := not_exists.mp hevent
    rw [Device.step_other hother] at hstep
    obtain ⟨s', hs', rfl⟩ := Option.map_eq_some_iff.mp hstep
    exact h ⟨henabled', (process_ready hother hs').symm.trans hready'⟩

/-- A run leaves a device stuck exactly when it was stuck or one of the events stranded it. -/
theorem run_stuck_iff {config : Config} {events : List Event} {d d' : Device}
    (hrun : d.run config events = some d') : Stuck d' ↔ Stuck d ∨ Stranding config events d := by
  induction events generalizing d with
  | nil =>
    cases hrun
    exact (or_iff_left id).symm
  | cons event rest ih =>
    obtain ⟨d₁, hstep, hrest⟩ := Option.bind_eq_some_iff.mp hrun
    rw [ih hrest]
    constructor
    · rintro (hstuck | hlater)
      · by_cases hd : Stuck d
        · exact .inl hd
        · by_cases hstrands : Strands config event d
          · exact .inr (.inl hstrands)
          · exact absurd hstuck (not_stuck_step hd hstrands hstep)
      · exact .inr (.inr ⟨d₁, hstep, hlater⟩)
    · rintro (hstuck | hstrands | ⟨d₂, hstep₂, hlater⟩)
      · exact .inl (hstuck.step hstep)
      · exact .inl (hstrands.stuck hstep)
      · rw [hstep] at hstep₂
        cases hstep₂
        exact .inr hlater

/-- With codes of zero every call succeeds. -/
theorem Codes.zero_succeed (config : Config) (d : Device) : Codes.zero.Succeed config d :=
  { registerPending := fun _ _ _ => rfl
    enable := fun _ => rfl
    authInfo := fun _ => rfl
    settingsLoad := fun _ => rfl
    registerReady := fun _ _ _ => rfl
    advStart := fun _ => rfl }

/-- Only a stuck device cannot be started. -/
theorem retryable_iff (config : Config) (d : Device) : Retryable config d ↔ ¬ Stuck d := by
  constructor
  · rintro h ⟨henabled, hready⟩
    have hfails : BringUpFails config (d.answered .zero) d.state := by
      refine .inr (.inl ?_)
      change (if d.enabled then -EALREADY else _) ≠ 0
      rw [if_pos henabled]
      exact ealready_ne
    exact (advStartNow_fails config hready hfails).1 (h .zero (Codes.zero_succeed config d)).1
  · intro h codes hcodes
    have hup : d.state.ready = true ∨ ¬ BringUpFails config (d.answered codes) d.state := by
      by_cases hready : d.state.ready = true
      · exact .inl hready
      · refine .inr ?_
        have henabled : d.enabled = false := Bool.eq_false_iff.mpr fun henabled =>
          h ⟨henabled, Bool.eq_false_iff.mpr hready⟩
        rintro (hfails | hfails | hfails | hfails)
        · exact hfails (appGattRegisterPendingFrom_ok fun k hk =>
            hcodes.registerPending k (by omega))
        · exact hfails ((answered_enable henabled codes).trans (hcodes.enable henabled))
        · exact hfails.2 (hcodes.authInfo hfails.1)
        · exact hfails.2 (hcodes.settingsLoad hfails.1)
    obtain ⟨hzero, hready, hadvertising, hcount, hregistered⟩ := advBringUp_ok hup
    have hbegin := advBegin_ok codes
      (s := (advBringUp config (d.answered codes) d.state).2)
      (fun k hk hk' => hcodes.registerReady k (hcount ▸ hk) (hregistered k hk'))
      (fun h => hcodes.advStart (hadvertising.symm.trans h))
    have hstart : advStartNow config (d.answered codes) d.state =
        advBegin codes (advBringUp config (d.answered codes) d.state).2 := by
      unfold advStartNow
      dsimp only
      rw [if_neg (not_not.mpr hzero)]
      rfl
    change (advStartNow config (d.answered codes) d.state).1 = 0 ∧
      (advStartNow config (d.answered codes) d.state).2.ready = true ∧
      (advStartNow config (d.answered codes) d.state).2.advertising = true
    rw [hstart]
    exact ⟨hbegin.1, (advBegin_ready codes _).trans hready, hbegin.2⟩

/-- After any events, advertising can be started unless one of them was an attempt that enabled the
stack and failed behind that. -/
theorem advStart_retryable_iff {config : Config} {events : List Event} {d : Device}
    (hrun : Device.boot.run config events = some d) :
    Retryable config d ↔ ¬ Stranding config events .boot := by
  have hboot : ¬ Stuck .boot := fun h => Bool.false_ne_true h.1
  rw [retryable_iff, run_stuck_iff hrun, or_iff_right hboot]

/-- The stack does not start to advertise: that is tried again. -/
theorem refused_start_retryable : ∃ d, Device.boot.run ⟨true, true⟩
      [.advStart { Codes.zero with advStart := -EINVAL }] = some d ∧ Retryable ⟨true, true⟩ d := by
  have hrun : Device.boot.run ⟨true, true⟩
      [.advStart { Codes.zero with advStart := -EINVAL }] = some _ := rfl
  refine ⟨_, hrun, (advStart_retryable_iff hrun).mpr ?_⟩
  rintro (⟨codes, hcodes, _, _, _, _, hfailed⟩ | ⟨d, _, hrest⟩)
  · cases hcodes
    obtain ⟨_, hfailed⟩ | ⟨_, hfailed⟩ := hfailed
    · exact hfailed (by decide)
    · exact hfailed rfl
  · exact hrest

/-- The settings cannot be loaded once: the next attempt finds the stack enabled and fails. -/
theorem failed_settings_stuck : ∃ d, Device.boot.run ⟨true, true⟩
      [.advStart { Codes.zero with settingsLoad := -EINVAL }] = some d ∧
    (attempt ⟨true, true⟩ { Codes.zero with settingsLoad := -EINVAL } .boot).1 = -EINVAL ∧
    ¬ Retryable ⟨true, true⟩ d := by
  refine ⟨_, rfl, by decide +kernel, fun h => ?_⟩
  have hcode := (h .zero (Codes.zero_succeed _ _)).1
  exact absurd hcode (by decide +kernel)

end Rtbus.Ble
