import Mathlib.Data.List.GetD
import Mathlib.Data.List.Induction
import Rtbus.Ble.Gatt

/-!
# The table of a service as a list

`attributes` says what the table of a service is: the attribute of the service, and behind it, for
every characteristic, its declaration, its value, and its configuration if it notifies. The loop that
fills the table in place keeps `Filled`, and a definition is refused exactly when the value of one of
its characteristics cannot be stored. The two checks against a full table never refuse.
-/

namespace Rtbus.Ble

/-- The attributes of the characteristic `i`. -/
def chrcAttrs (handle i : Nat) (d : ChrcDef) : List Attr :=
  [declarationAttr handle i, valueAttr handle i d] ++
    (if notifies d then [cccAttr handle i d] else [])

/-- The attributes of a service. -/
def attributes (handle : Nat) (defs : List ChrcDef) : List Attr :=
  serviceAttr handle :: (defs.mapIdx (chrcAttrs handle)).flatten

/-- Where the declaration of the characteristic behind `before` stands. -/
def declarationIndex (handle : Nat) (before : List ChrcDef) : Nat := (attributes handle before).length

/-- The initial value fits into the characteristic and is there. -/
def ChrcDef.storable (d : ChrcDef) : Prop :=
  d.valueLen.toNat ≤ gattValueMax ∧ (d.valueLen ≠ 0 → d.value.target ≠ none)

instance (d : ChrcDef) : Decidable d.storable :=
  inferInstanceAs (Decidable (d.valueLen.toNat ≤ gattValueMax ∧
    (d.valueLen ≠ 0 → d.value.target ≠ none)))

/-- What the loop makes of a cleared characteristic whose declaration is at `attrIndex`. -/
def builtChrc (d : ChrcDef) (attrIndex : Nat) : AppGattChrc :=
  { notifyEnabled := false
    hasCcc := notifies d
    valueAttrIndex := attrIndex + 1
    cccAttrIndex := if notifies d then attrIndex + 2 else 0
    valueLen := d.valueLen.toNat
    valueUuid := d.valueUuid
    properties := appGattProperties d
    value := d.value.elements ++ (List.replicate gattValueMax 0).drop d.value.elements.length }

/-! ## The list -/

/-- A characteristic has two attributes, and a third if it notifies. -/
theorem chrcAttrs_length (handle i : Nat) (d : ChrcDef) :
    (chrcAttrs handle i d).length = 2 + (if notifies d then 1 else 0) := by
  unfold chrcAttrs
  split <;> rfl

/-- The attributes of one more characteristic come last. -/
theorem attributes_concat (handle : Nat) (before : List ChrcDef) (d : ChrcDef) :
    attributes handle (before ++ [d]) =
      attributes handle before ++ chrcAttrs handle before.length d := by
  simp only [attributes, List.mapIdx_append, List.mapIdx_cons, List.mapIdx_nil, Nat.zero_add,
    List.flatten_append, List.flatten_singleton, List.cons_append]

/-- The attributes of the first characteristics come first. -/
theorem attributes_append (handle : Nat) (before rest : List ChrcDef) :
    ∃ behind, attributes handle (before ++ rest) = attributes handle before ++ behind := by
  refine ⟨(rest.mapIdx fun k => chrcAttrs handle (k + before.length)).flatten, ?_⟩
  simp only [attributes, List.mapIdx_append, List.flatten_append, List.cons_append]

/-- One attribute for the service, two for each characteristic, one for each that notifies. -/
theorem attributes_length (handle : Nat) (defs : List ChrcDef) :
    (attributes handle defs).length = 1 + 2 * defs.length + defs.countP notifies := by
  induction defs using List.reverseRecOn with
  | nil => rfl
  | append_singleton before d ih =>
    rw [attributes_concat, List.length_append, ih, chrcAttrs_length, List.length_append,
      List.countP_append, List.countP_singleton, List.length_singleton]
    omega

/-- Where the declaration of a characteristic is at most. -/
theorem declarationIndex_le (handle : Nat) (before : List ChrcDef) :
    declarationIndex handle before ≤ 1 + 3 * before.length := by
  have := List.countP_le_length (p := notifies) (l := before)
  rw [declarationIndex, attributes_length]
  omega

/-- The attributes of as many characteristics as a service may have fit into its table. -/
theorem attributes_fits (handle : Nat) {defs : List ChrcDef} (h : defs.length ≤ appGattChrcMax) :
    (attributes handle defs).length ≤ appGattAttrMax :=
  calc (attributes handle defs).length ≤ 1 + 3 * defs.length := declarationIndex_le handle defs
    _ ≤ appGattAttrMax := by unfold appGattAttrMax; omega

/-- The list is cut at a characteristic: what is before it, its attributes, and what is behind it,
which does not start with a configuration. -/
theorem attributes_cut (handle : Nat) {defs : List ChrcDef} {j : Nat} {d : ChrcDef}
    (h : defs[j]? = some d) : ∃ behind,
      attributes handle defs = attributes handle (defs.take j) ++ (chrcAttrs handle j d ++ behind) ∧
      (behind = [] ∨ ∃ more, behind = declarationAttr handle (j + 1) :: more) := by
  obtain ⟨hj, hd⟩ := List.getElem?_eq_some_iff.mp h
  have hcut : defs = (defs.take j ++ [d]) ++ defs.drop (j + 1) := by
    rw [List.append_assoc, List.singleton_append, ← hd, List.getElem_cons_drop, List.take_append_drop]
  have hlen : (defs.take j).length = j := by simp only [List.length_take]; omega
  cases hrest : defs.drop (j + 1) with
  | nil =>
    refine ⟨[], ?_, .inl rfl⟩
    rw [List.append_nil]
    conv_lhs => rw [hcut, hrest, List.append_nil, attributes_concat, hlen]
  | cons e rest =>
    have hlen' : (defs.take j ++ [d]).length = j + 1 := by
      rw [List.length_append, hlen, List.length_singleton]
    have hcut' : defs = defs.take j ++ [d] ++ [e] ++ rest := by
      rw [List.append_assoc (_ ++ _), List.singleton_append, ← hrest, ← hcut]
    obtain ⟨behind, hbehind⟩ := attributes_append handle (defs.take j ++ [d] ++ [e]) rest
    refine ⟨chrcAttrs handle (j + 1) e ++ behind, ?_, .inr ⟨_, List.cons_append⟩⟩
    rw [← hcut', attributes_concat, attributes_concat, hlen, hlen'] at hbehind
    rw [hbehind, List.append_assoc, List.append_assoc]

/-! ## The loop -/

/-- The array has the attributes of the list, and is cleared behind them. -/
def Holds (attrs : Nat → Attr) (list : List Attr) : Prop := ∀ k, attrs k = list.getD k .zero

/-- Writing the next attribute of a table. -/
theorem Holds.update {attrs : Nat → Attr} {list : List Attr} (h : Holds attrs list)
    (index : Nat) (hindex : index = list.length) (attr : Attr) :
    Holds (Function.update attrs index attr) (list ++ [attr]) := by
  subst hindex
  intro k
  rcases Nat.lt_trichotomy k list.length with hlt | rfl | hgt
  · rw [Function.update_of_ne (by omega), h k, List.getD_append _ _ _ _ hlt]
  · rw [Function.update_self, List.getD_append_right _ _ _ _ (Nat.le_refl _), Nat.sub_self]
    rfl
  · rw [Function.update_of_ne (by omega), h k, List.getD_eq_default _ _ (by omega),
      List.getD_eq_default _ _ (by simp only [List.length_append, List.length_singleton]; omega)]

/-- The slot with the attributes and the characteristics of `done`, the rest of it cleared. -/
structure Filled (handle : Nat) (done : List ChrcDef) (gatt : AppGatt) : Prop where
  attrs : Holds gatt.attrs (attributes handle done)
  built : ∀ j d, done[j]? = some d →
    gatt.chrcs j = builtChrc d (declarationIndex handle (done.take j))
  cleared : ∀ j, done.length ≤ j → gatt.chrcs j = .zero
  unregistered : gatt.registered = false

theorem ok_bind {α β : Type} (a : α) (f : α → Build β) : (Except.ok a >>= f) = f a := rfl

/-- An attribute inside the table is written. -/
theorem setAttr_ok {gatt : AppGatt} {index : Nat} (h : index < appGattAttrMax) (attr : Attr) :
    gatt.setAttr index attr = .ok { gatt with attrs := Function.update gatt.attrs index attr } :=
  if_pos h

/-- So is a characteristic inside its table. -/
theorem setChrc_ok {gatt : AppGatt} {index : Nat} (h : index < appGattChrcMax)
    (chrc : AppGattChrc) :
    gatt.setChrc index chrc = .ok { gatt with chrcs := Function.update gatt.chrcs index chrc } :=
  if_pos h

/-- A value that can be stored is. -/
theorem appGattValueCopy_ok {d : ChrcDef} (hd : d.storable) (chrc : AppGattChrc) :
    appGattValueCopy chrc d.value = .ok { chrc with
      value := d.value.elements ++ chrc.value.drop d.value.elements.length
      valueLen := d.valueLen.toNat } := by
  unfold appGattValueCopy
  rw [if_neg (Nat.not_lt.mpr hd.1), if_neg fun h => hd.2 h.1 h.2]

/-- Any other is refused with an error. -/
theorem appGattValueCopy_refused {d : ChrcDef} (hd : ¬ d.storable) (chrc : AppGattChrc) :
    ∃ ret < 0, appGattValueCopy chrc d.value = .error ret := by
  unfold appGattValueCopy
  by_cases hlen : d.valueLen.toNat > gattValueMax
  · exact ⟨-EMSGSIZE, by decide, if_pos hlen⟩
  · refine ⟨-EINVAL, by decide, ?_⟩
    rw [if_neg hlen, if_pos]
    by_contra h
    exact hd ⟨Nat.not_lt.mp hlen, fun h0 hnull => h ⟨h0, hnull⟩⟩

/-- One characteristic more. -/
theorem Filled.concat {handle : Nat} {done : List ChrcDef} {gatt gatt' : AppGatt} {d : ChrcDef}
    (h : Filled handle done gatt)
    (hattrs : Holds gatt'.attrs (attributes handle done ++ chrcAttrs handle done.length d))
    (hchrcs : gatt'.chrcs =
      Function.update gatt.chrcs done.length (builtChrc d (declarationIndex handle done)))
    (hregistered : gatt'.registered = gatt.registered) : Filled handle (done ++ [d]) gatt' where
  attrs := by rw [attributes_concat]; exact hattrs
  built j e he := by
    rw [hchrcs]
    rcases Nat.lt_or_ge j done.length with hlt | hge
    · rw [List.getElem?_append_left hlt] at he
      rw [Function.update_of_ne (by omega), h.built j e he, List.take_append_of_le_length (by omega)]
    · rw [List.getElem?_append_right hge, List.getElem?_singleton] at he
      obtain ⟨hj, rfl⟩ : j - done.length = 0 ∧ d = e := by simpa using he
      obtain rfl : j = done.length := by omega
      rw [Function.update_self, List.take_left]
  cleared j hj := by
    rw [List.length_append, List.length_singleton] at hj
    rw [hchrcs, Function.update_of_ne (by omega), h.cleared j (by omega)]
  unregistered := hregistered.trans h.unregistered

/-- One round of the loop when the value can be stored. -/
theorem appGattAddChrc_ok {handle : Nat} {done : List ChrcDef} {gatt : AppGatt} {d : ChrcDef}
    (hfilled : Filled handle done gatt) (hroom : done.length < appGattChrcMax)
    (hd : d.storable) : ∃ gatt',
      appGattAddChrc handle done.length d (declarationIndex handle done) gatt =
        .ok (gatt', declarationIndex handle (done ++ [d])) ∧
      Filled handle (done ++ [d]) gatt' := by
  have hle := declarationIndex_le handle done
  have hnext : declarationIndex handle (done ++ [d]) =
      declarationIndex handle done + (2 + if notifies d then 1 else 0) := by
    rw [declarationIndex, attributes_concat, List.length_append, chrcAttrs_length]
    rfl
  have hmax : appGattAttrMax = 13 := rfl
  have hmax' : appGattChrcMax = 4 := rfl
  have hcleared := hfilled.cleared done.length (Nat.le_refl _)
  have hattrs := (hfilled.attrs.update (declarationIndex handle done) rfl
    (declarationAttr handle done.length)).update (declarationIndex handle done + 1)
    (by rw [List.length_append, List.length_singleton]; rfl) (valueAttr handle done.length d)
  unfold appGattAddChrc
  rw [if_neg (by rw [hmax, Nat.mod_eq_of_lt] <;> omega)]
  simp only [appGattValueCopy_ok hd, setChrc_ok hroom, hcleared, ok_bind,
    setAttr_ok (show declarationIndex handle done < appGattAttrMax by omega),
    setAttr_ok (show declarationIndex handle done + 1 < appGattAttrMax by omega)]
  cases hn : notifies d with
  | false =>
    rw [if_neg Bool.false_ne_true, hnext, hn]
    refine ⟨_, rfl, hfilled.concat ?_ ?_ rfl⟩
    · simpa only [chrcAttrs, hn, Bool.false_eq_true, if_false, List.append_nil, List.append_assoc,
        List.singleton_append] using hattrs
    · simp only [builtChrc, hn, AppGattChrc.zero, Bool.false_eq_true, if_false]
  | true =>
    have hccc := hattrs.update (declarationIndex handle done + 2)
      (by simp only [List.length_append, List.length_singleton]; rfl)
      (cccAttr handle done.length d)
    rw [if_pos rfl, if_neg (by omega), hnext, hn]
    simp only [appGattCccdDefine, setChrc_ok hroom, ok_bind,
      setAttr_ok (show declarationIndex handle done + 2 < appGattAttrMax by omega)]
    refine ⟨_, rfl, hfilled.concat ?_ ?_ rfl⟩
    · simpa only [chrcAttrs, hn, if_true, List.append_assoc, List.singleton_append] using hccc
    · simp only [builtChrc, hn, AppGattChrc.zero, if_true, Function.update_self,
        Function.update_idem]

/-- One round of the loop when the value cannot be stored. -/
theorem appGattAddChrc_refused (handle i attrIndex : Nat) (gatt : AppGatt) {d : ChrcDef}
    (hd : ¬ d.storable) :
    ∃ ret < 0, appGattAddChrc handle i d attrIndex gatt = .error (.code ret) := by
  unfold appGattAddChrc
  by_cases hfull : (attrIndex + 2) % 256 > appGattAttrMax
  · exact ⟨-ENOMEM, by decide, by rw [if_pos hfull]; rfl⟩
  · obtain ⟨ret, hret, hcopy⟩ := appGattValueCopy_refused hd
      { gatt.chrcs i with valueUuid := d.valueUuid }
    exact ⟨ret, hret, by rw [if_neg hfull, hcopy]; rfl⟩

/-- The loop when every value can be stored. -/
theorem appGattAddChrcs_ok {handle : Nat} : ∀ {rest done : List ChrcDef} {gatt : AppGatt},
    Filled handle done gatt → (done ++ rest).length ≤ appGattChrcMax →
    (∀ d ∈ rest, d.storable) → ∃ gatt',
      appGattAddChrcs handle rest done.length (declarationIndex handle done) gatt =
        .ok (gatt', declarationIndex handle (done ++ rest)) ∧
      Filled handle (done ++ rest) gatt'
  | [], done, gatt, hfilled, _, _ => ⟨gatt, by rw [List.append_nil]; rfl, by rwa [List.append_nil]⟩
  | d :: rest, done, gatt, hfilled, hroom, hall => by
    rw [List.append_cons] at hroom ⊢
    have hslot : done.length < appGattChrcMax := by
      rw [List.length_append, List.length_append, List.length_singleton] at hroom
      omega
    obtain ⟨gatt₁, hone, hfilled₁⟩ :=
      appGattAddChrc_ok hfilled hslot (hall d List.mem_cons_self)
    obtain ⟨gatt₂, hrest, hfilled₂⟩ := appGattAddChrcs_ok hfilled₁ hroom
      fun e he => hall e (List.mem_cons_of_mem _ he)
    rw [List.length_append, List.length_singleton] at hrest
    refine ⟨gatt₂, ?_, hfilled₂⟩
    rw [appGattAddChrcs, hone]
    exact hrest

/-- The loop when one of them cannot. -/
theorem appGattAddChrcs_refused {handle : Nat} : ∀ {rest done : List ChrcDef} {gatt : AppGatt},
    Filled handle done gatt → (done ++ rest).length ≤ appGattChrcMax →
    ¬ (∀ d ∈ rest, d.storable) → ∃ ret < 0,
      appGattAddChrcs handle rest done.length (declarationIndex handle done) gatt =
        .error (.code ret)
  | [], _, _, _, _, hall => absurd (fun _ h => absurd h List.not_mem_nil) hall
  | d :: rest, done, gatt, hfilled, hroom, hall => by
    rw [List.append_cons] at hroom
    have hslot : done.length < appGattChrcMax := by
      rw [List.length_append, List.length_append, List.length_singleton] at hroom
      omega
    rw [appGattAddChrcs]
    by_cases hd : d.storable
    · obtain ⟨gatt₁, hone, hfilled₁⟩ := appGattAddChrc_ok hfilled hslot hd
      obtain ⟨ret, hret, hrest⟩ := appGattAddChrcs_refused hfilled₁ hroom
        fun hrest => hall (List.forall_mem_cons.mpr ⟨hd, hrest⟩)
      rw [List.length_append, List.length_singleton] at hrest
      exact ⟨ret, hret, by rw [hone]; exact hrest⟩
    · obtain ⟨ret, hret, hone⟩ := appGattAddChrc_refused handle done.length
        (declarationIndex handle done) gatt hd
      exact ⟨ret, hret, by rw [hone]; rfl⟩

/-! ## The service -/

/-- A pointer that is given has its elements. -/
theorem Pointer.length_elements {α : Type} {count : Nat} {p : Pointer α count}
    (h : p.target ≠ none) : p.elements.length = count := by
  obtain ⟨elements, htarget⟩ := Option.ne_none_iff_exists'.mp h
  rw [Pointer.elements, htarget, Option.getD_some, List.length_take]
  exact Nat.min_eq_left (p.readable elements htarget)

/-- A stored value keeps the characteristic's array at its length. -/
theorem ChrcDef.storable.length_value {d : ChrcDef} (h : d.storable) {old : List UInt8}
    (hold : old.length = gattValueMax) :
    (d.value.elements ++ old.drop d.value.elements.length).length = gattValueMax := by
  have hle : d.value.elements.length ≤ d.valueLen.toNat := List.length_take_le _ _
  have := h.1
  rw [List.length_append, List.length_drop, hold]
  omega

/-- A characteristic is what its definition says, its declaration at `index`. The value itself is
the application's to change. -/
structure Describes (d : ChrcDef) (index : Nat) (chrc : AppGattChrc) : Prop where
  properties : chrc.properties = appGattProperties d
  valueAttrIndex : chrc.valueAttrIndex = index + 1
  hasCcc : chrc.hasCcc = notifies d
  cccAttrIndex : notifies d = true → chrc.cccAttrIndex = index + 2
  valueLen : chrc.valueLen ≤ gattValueMax
  value : chrc.value.length = gattValueMax

/-- A characteristic is built as its definition says. -/
theorem builtChrc_describes {d : ChrcDef} (hd : d.storable) (index : Nat) :
    Describes d index (builtChrc d index) where
  properties := rfl
  valueAttrIndex := rfl
  hasCcc := rfl
  cccAttrIndex h := if_pos h
  valueLen := hd.1
  value := hd.length_value List.length_replicate

/-- A service is what its definition says. -/
structure WellFormed (handle : Nat) (gatt : AppGatt) : Prop where
  prepared : gatt.prepared = true
  room : gatt.definition.length ≤ appGattChrcMax
  chrcCount : gatt.chrcCount = gatt.definition.length
  attrCount : gatt.attrCount = (attributes handle gatt.definition).length
  attrs : Holds gatt.attrs (attributes handle gatt.definition)
  chrcs : ∀ j d, gatt.definition[j]? = some d →
    Describes d (declarationIndex handle (gatt.definition.take j)) (gatt.chrcs j)

/-- The definition passes the checks before the loop. -/
def ServiceDef.offered (d : ServiceDef) : Prop :=
  d.chrcCount ≠ 0 ∧ d.chrcCount.toNat ≤ appGattChrcMax ∧ d.chrcs.target ≠ none

instance (d : ServiceDef) : Decidable d.offered :=
  inferInstanceAs (Decidable (d.chrcCount ≠ 0 ∧ d.chrcCount.toNat ≤ appGattChrcMax ∧
    d.chrcs.target ≠ none))

/-- It passes all of them. -/
def ServiceDef.acceptable (d : ServiceDef) : Prop := d.offered ∧ ∀ c ∈ d.chrcs.elements, c.storable

instance (d : ServiceDef) : Decidable d.acceptable :=
  inferInstanceAs (Decidable (d.offered ∧ ∀ c ∈ d.chrcs.elements, c.storable))

/-- The slot with the attribute of the service. -/
theorem start_filled (handle : Nat) (d : ServiceDef) : ∃ gatt,
    ({ AppGatt.zero with serviceUuid := d.serviceUuid }.setAttr 0 (serviceAttr handle)) = .ok gatt ∧
      Filled handle [] gatt := by
  have hnil : Holds AppGatt.zero.attrs [] := fun _ => rfl
  exact ⟨_, setAttr_ok (by decide) _,
    { attrs := hnil.update 0 rfl (serviceAttr handle)
      built := fun j d hd => by cases hd
      cleared := fun _ _ => rfl
      unregistered := rfl }⟩

/-- An acceptable definition becomes a service. -/
theorem appGattBuild_ok (handle : Nat) {d : ServiceDef} (hd : d.acceptable) : ∃ gatt,
    appGattBuild handle d = .ok gatt ∧ WellFormed handle gatt ∧ gatt.registered = false := by
  have hlen := Pointer.length_elements hd.1.2.2
  have hroom : ([] ++ d.chrcs.elements).length ≤ appGattChrcMax := hlen.symm ▸ hd.1.2.1
  obtain ⟨start, hstart, hfilled⟩ := start_filled handle d
  obtain ⟨gatt, hloop, hfilled⟩ := appGattAddChrcs_ok hfilled hroom hd.2
  rw [List.nil_append] at hloop hfilled hroom
  have hbuild : appGattBuild handle d = .ok { gatt with
      chrcCount := d.chrcCount.toNat
      attrCount := declarationIndex handle d.chrcs.elements
      serviceAttrCount := declarationIndex handle d.chrcs.elements
      prepared := true
      definition := d.chrcs.elements } := by
    unfold appGattBuild
    rw [hstart, ok_bind]
    exact congrArg (· >>= _) hloop
  refine ⟨_, hbuild, ?_, hfilled.unregistered⟩
  exact {
    prepared := rfl
    room := hroom
    chrcCount := hlen.symm
    attrCount := rfl
    attrs := hfilled.attrs
    chrcs := fun j c hc => by
      have hbuilt := hfilled.built j c hc
      exact hbuilt ▸ builtChrc_describes (hd.2 c (List.mem_of_getElem? hc)) _ }

/-- Any other definition that reaches the loop is refused with a code. -/
theorem appGattBuild_refused (handle : Nat) {d : ServiceDef} (hoffered : d.offered)
    (hd : ¬ d.acceptable) : ∃ ret < 0, appGattBuild handle d = .error (.code ret) := by
  have hlen := Pointer.length_elements hoffered.2.2
  have hroom : ([] ++ d.chrcs.elements).length ≤ appGattChrcMax := hlen.symm ▸ hoffered.2.1
  obtain ⟨start, hstart, hfilled⟩ := start_filled handle d
  obtain ⟨ret, hret, hloop⟩ := appGattAddChrcs_refused hfilled hroom fun h => hd ⟨hoffered, h⟩
  refine ⟨ret, hret, ?_⟩
  unfold appGattBuild
  rw [hstart, ok_bind]
  exact congrArg (· >>= _) hloop

end Rtbus.Ble
