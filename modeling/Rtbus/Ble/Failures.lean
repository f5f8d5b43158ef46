import Rtbus.Ble.Invariant

/-!
# What a failed request leaves behind

A service that the stack refuses after it was staged stays staged, although the caller gets a code
and no handle (`registration_traceless_iff`). New advertising data replaces the old one table by
table, so that a definition with a fault behind its first table is half installed
(`gapInit_atomic_iff`).
-/

namespace Rtbus.Ble

/-! ## Registrations -/

/-- Nothing of a registration is left: not in the tables, and not in what later requests do. -/
structure Traceless (s s' : State) : Prop where
  count : s'.appGattCount = s.appGattCount
  services : ∀ handle < s.appGattCount, s'.appGatts handle = s.appGatts handle
  adServiceUuid : s'.adServiceUuid = s.adServiceUuid
  adHasServiceUuid : s'.adHasServiceUuid = s.adHasServiceUuid
  gattRegister : ∀ ret offer,
    appGattNotifyRegisterNow ret offer s' = appGattNotifyRegisterNow ret offer s
  advStart : ∀ config codes, advStartNow config codes s' = advStartNow config codes s

/-- A registration leaves no trace when it fails. -/
def TracelessFailure (ret : Int) (offer : Option ServiceDef) (s : State) : Prop :=
  ∀ code s', appGattNotifyRegisterNow ret offer s = some (code, s') → code < 0 → Traceless s s'

/-- A failed registration leaves no trace unless the stack is ready and refuses a service that passed
every check. -/
theorem registration_traceless_iff {config : Config} {s : State} (h : Reachable config s) (ret : Int)
    (offer : Option ServiceDef) :
    TracelessFailure ret offer s ↔ ¬ (s.ready = true ∧ Admitted offer s ∧ ret < 0) := by
  have hinv := reachable_inv h
  constructor
  · rintro hfailure ⟨hready, hoffer, hret⟩
    obtain ⟨gatt, _, heq⟩ := appGattNotifyRegisterNow_admitted ret hoffer
    rw [if_pos hready, if_neg (Int.ne_of_lt hret)] at heq
    have := (hfailure ret _ heq hret).count
    rw [staged_count] at this
    omega
  · intro hcondition code s' heq hcode
    have hsame : s' = s := by
      by_cases hoffer : Admitted offer s
      · obtain ⟨gatt, _, hadmitted⟩ := appGattNotifyRegisterNow_admitted ret hoffer
        rw [heq] at hadmitted
        split at hadmitted
        · next hready =>
          split at hadmitted
          · cases hadmitted
            omega
          · cases hadmitted
            exact absurd ⟨hready, hoffer, hcode⟩ hcondition
        · cases hadmitted
          omega
      · obtain ⟨code', _, hrefused⟩ := appGattNotifyRegisterNow_refused hinv ret hoffer
        rw [heq] at hrefused
        cases hrefused
        rfl
    subst hsame
    exact ⟨rfl, fun _ _ => rfl, rfl, rfl, fun _ _ => rfl, fun _ _ => rfl⟩

/-- A level of 33 bytes, one more than a characteristic holds. -/
def longChrc : ChrcDef :=
  { levelChrc with valueLen := 33, value := .to (List.replicate 33 0) (by decide) }

/-- A service with nothing else. -/
def longService : ServiceDef := { levelService with chrcs := .to [longChrc] (one_le_length _) }

/-- With a service registered and the stack ready, one whose value is too long is refused, and nothing
of it is left. -/
theorem long_service_traceless : ∃ s, Reachable ⟨true, true⟩ s ∧ s.ready = true ∧
    s.appGattCount = 1 ∧ (s.appGatts 0).registered = true ∧
    ∃ s', appGattNotifyRegisterNow 0 (some longService) s = some (-EMSGSIZE, s') ∧
      Traceless s s' := by
  obtain ⟨s, s', reach, ready, count, registered, call⟩ : ∃ s s', Reachable ⟨true, true⟩ s ∧
      s.ready = true ∧ s.appGattCount = 1 ∧ (s.appGatts 0).registered = true ∧
      appGattNotifyRegisterNow 0 (some longService) s = some (-EMSGSIZE, s') :=
    ⟨_, _, .event (.advStart .zero) (.event (.gattRegister 0 (some levelService)) .initial rfl) rfl,
      rfl, rfl, rfl, rfl⟩
  have refused : ¬ Admitted (some longService) s := by
    rintro ⟨d, hd, acceptable, _⟩
    cases hd
    exact absurd acceptable (by decide)
  have traceless := (registration_traceless_iff reach 0 (some longService)).mpr
    fun h => refused h.2.1
  exact ⟨s, reach, ready, count, registered, s', call, traceless _ _ call (by decide)⟩

/-- The stack is ready and has no room for the service: there is a code, and a service more. -/
theorem refused_service_staged : ∃ s, Reachable ⟨true, true⟩ s ∧
    ¬ TracelessFailure (-ENOMEM) (some levelService) s := by
  have hreachable : Reachable ⟨true, true⟩ (advStartNow ⟨true, true⟩ .zero .initial).2 :=
    .event (.advStart .zero) .initial rfl
  refine ⟨_, hreachable, fun h => ?_⟩
  have hrun : (appGattNotifyRegisterNow (-ENOMEM) (some levelService)
      (advStartNow ⟨true, true⟩ .zero .initial).2).map (fun r => (r.1, r.2.appGattCount)) =
      some (-ENOMEM, 1) := by decide +kernel
  obtain ⟨⟨code, s'⟩, heq, hr⟩ := Option.map_eq_some_iff.mp hrun
  obtain ⟨rfl, hcount⟩ := Prod.mk.inj hr
  have hsame := (h _ s' heq (by decide)).count
  have hbefore : (advStartNow ⟨true, true⟩ .zero .initial).2.appGattCount = 0 := rfl
  rw [hbefore] at hsame
  change s'.appGattCount = 1 at hcount
  omega

/-! ## Advertising data -/

/-- `rtbus_ble_gap_init_now` installs all of a definition or nothing of it. -/
structure AtomicGapInit (gapDef : Option GapDef) (s : State) : Prop where
  failed : (gapInitNow gapDef s).1 < 0 →
    (gapInitNow gapDef s).2.appAd = s.appAd ∧ (gapInitNow gapDef s).2.appSd = s.appSd ∧
    (gapInitNow gapDef s).2.gapSecurityLevel = s.gapSecurityLevel ∧
    (gapInitNow gapDef s).2.gapFlags = s.gapFlags
  installed : (gapInitNow gapDef s).1 = 0 → ∃ d, gapDef = some d ∧
    (gapInitNow gapDef s).2.appAd = .of d.advData.elements d.advDataCount ∧
    (gapInitNow gapDef s).2.appSd = .of d.scanData.elements d.scanDataCount ∧
    (gapInitNow gapDef s).2.gapSecurityLevel = d.securityLevel ∧
    (gapInitNow gapDef s).2.gapFlags = d.flags

/-- The first table is not touched, or both are installed, or a table that is written has the very
content that the copy leaves in it. -/
def GapKept (gapDef : Option GapDef) (s : State) : Prop :=
  ∀ d, gapDef = some d →
    gapRefused d.advData ∨
    (gapFits d.advData ∧ ¬ gapRefused d.scanData ∧ gapFits d.scanData) ∨
    (s.appAd = gapLeft d.advData ∧
      (gapFits d.advData → gapRefused d.scanData ∨ s.appSd = gapLeft d.scanData))

theorem einval_neg : -EINVAL < 0 := by decide

theorem emsgsize_neg : -EMSGSIZE < 0 := by decide

/-- Advertising data that is refused changes nothing. -/
theorem gapInitNow_advRefused {d : GapDef} {s : State} (hadv : gapRefused d.advData) :
    ∃ code < 0, gapInitNow (some d) s = (code, s) := by
  obtain ⟨hcode, hdst⟩ := (gapDataCopy_eq d.advData s.appAd).1 hadv
  refine ⟨_, hcode, ?_⟩
  unfold gapInitNow
  dsimp only
  rw [if_pos (Int.ne_of_lt hcode), hdst]

/-- Advertising data that is too long has been copied up to its limit. -/
theorem gapInitNow_advLong {d : GapDef} {s : State} (hadv : ¬ gapRefused d.advData)
    (hfits : ¬ gapFits d.advData) :
    gapInitNow (some d) s = (-EMSGSIZE, { s with appAd := gapLeft d.advData }) := by
  have hcopy := (gapDataCopy_eq d.advData s.appAd).2 hadv
  unfold gapInitNow
  dsimp only
  rw [hcopy, if_neg hfits]
  rfl

/-- Scan data that is refused has let the advertising data through. -/
theorem gapInitNow_scanRefused {d : GapDef} {s : State} (hadv : ¬ gapRefused d.advData)
    (hfits : gapFits d.advData) (hscan : gapRefused d.scanData) :
    ∃ code < 0, gapInitNow (some d) s = (code, { s with appAd := gapLeft d.advData }) := by
  have hcopy := (gapDataCopy_eq d.advData s.appAd).2 hadv
  obtain ⟨hcode, hdst⟩ := (gapDataCopy_eq d.scanData s.appSd).1 hscan
  refine ⟨_, hcode, ?_⟩
  unfold gapInitNow
  dsimp only
  rw [hcopy, if_pos hfits, if_neg (not_not.mpr rfl), if_pos (Int.ne_of_lt hcode), hdst]

/-- Scan data is copied up to its limit, and refused if that is not all. -/
theorem gapInitNow_scanCopied {d : GapDef} {s : State} (hadv : ¬ gapRefused d.advData)
    (hfits : gapFits d.advData) (hscan : ¬ gapRefused d.scanData) :
    gapInitNow (some d) s =
      if gapFits d.scanData then (0, { s with
        appAd := gapLeft d.advData, appSd := gapLeft d.scanData
        gapSecurityLevel := d.securityLevel, gapFlags := d.flags })
      else (-EMSGSIZE, { s with appAd := gapLeft d.advData, appSd := gapLeft d.scanData }) := by
  have hcopy := (gapDataCopy_eq d.advData s.appAd).2 hadv
  have hcopy' := (gapDataCopy_eq d.scanData s.appSd).2 hscan
  unfold gapInitNow
  dsimp only
  rw [hcopy, hcopy', if_pos hfits, if_neg (not_not.mpr rfl)]
  by_cases hfits' : gapFits d.scanData
  · rw [if_pos hfits', if_pos hfits', if_neg (not_not.mpr rfl)]
  · rw [if_neg hfits', if_neg hfits', if_pos (Int.ne_of_lt emsgsize_neg)]

/-- A failed request is as atomic as what it leaves is the same. -/
theorem atomicGapInit_failed {gapDef : Option GapDef} {s s' : State} {code : Int}
    (heq : gapInitNow gapDef s = (code, s')) (hcode : code < 0) : AtomicGapInit gapDef s ↔
      s'.appAd = s.appAd ∧ s'.appSd = s.appSd ∧
      s'.gapSecurityLevel = s.gapSecurityLevel ∧ s'.gapFlags = s.gapFlags := by
  constructor
  · intro h
    have := h.failed (by rw [heq]; exact hcode)
    rwa [heq] at this
  · intro h
    refine ⟨fun _ => by rw [heq]; exact h, fun hzero => ?_⟩
    rw [heq] at hzero
    exact absurd hzero (Int.ne_of_lt hcode)

/-- All or nothing, exactly when nothing that is in force is overwritten before the fault. -/
theorem gapInit_atomic_iff (gapDef : Option GapDef) (s : State) :
    AtomicGapInit gapDef s ↔ GapKept gapDef s := by
  cases gapDef with
  | none =>
    rw [atomicGapInit_failed (show gapInitNow none s = (-EINVAL, s) from rfl) einval_neg]
    exact ⟨fun _ d hd => absurd hd.symm (Option.some_ne_none d), fun _ => ⟨rfl, rfl, rfl, rfl⟩⟩
  | some d =>
    have hkept : GapKept (some d) s ↔
        gapRefused d.advData ∨
        (gapFits d.advData ∧ ¬ gapRefused d.scanData ∧ gapFits d.scanData) ∨
        (s.appAd = gapLeft d.advData ∧
          (gapFits d.advData → gapRefused d.scanData ∨ s.appSd = gapLeft d.scanData)) :=
      ⟨fun h => h d rfl, fun h d' hd => Option.some.inj hd ▸ h⟩
    rw [hkept]
    by_cases hadv : gapRefused d.advData
    · obtain ⟨code, hcode, heq⟩ := gapInitNow_advRefused (s := s) hadv
      rw [atomicGapInit_failed heq hcode]
      exact ⟨fun _ => .inl hadv, fun _ => ⟨rfl, rfl, rfl, rfl⟩⟩
    by_cases hfits : gapFits d.advData
    · by_cases hscan : gapRefused d.scanData
      · obtain ⟨code, hcode, heq⟩ := gapInitNow_scanRefused (s := s) hadv hfits hscan
        rw [atomicGapInit_failed heq hcode]
        refine ⟨fun h => .inr (.inr ⟨h.1.symm, fun _ => .inl hscan⟩), fun h => ?_⟩
        obtain h | ⟨_, h, _⟩ | ⟨had, _⟩ := h
        · exact absurd h hadv
        · exact absurd hscan h
        · exact ⟨had.symm, rfl, rfl, rfl⟩
      · have heq := gapInitNow_scanCopied (s := s) hadv hfits hscan
        by_cases hfits' : gapFits d.scanData
        · rw [if_pos hfits'] at heq
          refine ⟨fun _ => .inr (.inl ⟨hfits, hscan, hfits'⟩), fun _ => ⟨fun h => ?_, fun _ => ?_⟩⟩
          · rw [heq] at h
            exact absurd h (Int.lt_irrefl 0)
          · rw [heq]
            exact ⟨d, rfl, if_pos hfits, if_pos hfits', rfl, rfl⟩
        · rw [if_neg hfits'] at heq
          rw [atomicGapInit_failed heq emsgsize_neg]
          refine ⟨fun h => .inr (.inr ⟨h.1.symm, fun _ => .inr h.2.1.symm⟩), fun h => ?_⟩
          obtain h | ⟨_, _, h⟩ | ⟨had, hsd⟩ := h
          · exact absurd h hadv
          · exact absurd h hfits'
          · exact ⟨had.symm, ((hsd hfits).resolve_left hscan).symm, rfl, rfl⟩
    · have heq := gapInitNow_advLong (s := s) hadv hfits
      rw [atomicGapInit_failed heq emsgsize_neg]
      refine ⟨fun h => .inr (.inr ⟨h.1.symm, fun h => absurd h hfits⟩), fun h => ?_⟩
      obtain h | ⟨h, _⟩ | ⟨had, _⟩ := h
      · exact absurd h hadv
      · exact absurd h hfits
      · exact ⟨had.symm, rfl, rfl, rfl⟩

/-- Flags to advertise, and a scan response of five elements. -/
def crowdedGapDef : GapDef :=
  { securityLevel := 0, flags := 0, advDataCount := 1, scanDataCount := 5
    advData := .to [{ type := 1, dataLen := 1, data := Vector.replicate _ 6 }] (one_le_length _)
    scanData := .null }

theorem crowdedGapDef_installed : ¬ AtomicGapInit (some crowdedGapDef) .initial := by
  intro h
  have hcode : (gapInitNow (some crowdedGapDef) .initial).1 < 0 := by decide +kernel
  have hcount : (gapInitNow (some crowdedGapDef) .initial).2.appAd.count = 1 := by decide +kernel
  rw [(h.failed hcode).1] at hcount
  exact absurd hcount (by decide)

end Rtbus.Ble
