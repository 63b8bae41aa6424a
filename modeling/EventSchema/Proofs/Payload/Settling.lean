import EventSchema.Proofs.Payload.Correction
import EventSchema.Proofs.Payload.RoundTrip

/-!
# Preparing a payload that was written down

Once the fields of a pair were made to agree they do (`SiblingPair.Rule.agreeing`), and once
identifiers were filled in they are there (`Payload.filled_prefill`). Checking a payload and writing
it down again keeps both (`SiblingPair.Agreeing.kept`), unless a truth value or a double was taken
for an integer on the way. So where pairs keep out of each other's way and are given by the names of
their attributes, a payload that was prepared, accepted and written down is left as it is when it is
prepared again (`EventModel.prepare_written`).
-/

namespace EventSchema

variable {data out : Payload} {p : SiblingPair} {n : String} {v w id label : Json}

/-! ### Pairs that agree -/

/-- Values that are null alike and the same texts are labels alike. -/
theorem Json.isLabel_of_text_iff (hnull : w.isNull = v.isNull)
    (htext : ∀ t, w = .str t ↔ v = .str t) :
    w.isLabel = v.isLabel := by
  rw [Bool.eq_iff_iff, isLabel_iff, isLabel_iff, ne_eq, ← isNull_iff, hnull, isNull_iff,
    ne_eq, htext]

namespace SiblingPair

/-- The values of the fields of a pair agree: without a number there is no label, and a number that
has a label is given with that, or with any label if it stands for other values. -/
structure Agreeing (p : SiblingPair) (id label : Json) : Prop where
  unlabelled : id.isNull = true → label.isLabel = false
  integer : ∀ k, id.asInteger? = some k → id = .int k
  labelled : ∀ k, id.asInteger? = some k → k = otherId ∧ label.isLabel = true ∨
    ∀ text, p.labels.labelFor k = some text → label = .str text

/-- Fields that agree are settled. -/
theorem Agreeing.settled (h : p.Agreeing id label) : p.Settled id label := by
  rcases hid : id.isNull
  · rcases hn : id.asInteger? with _ | n
    · exact ⟨_, .unreadable hid hn, rfl, rfl⟩
    have hint := h.integer n hn
    by_cases hother : label.isLabel = true ∧ n = otherId
    · obtain ⟨hlabel, rfl⟩ := hother
      exact ⟨_, .other hn hlabel, hint.symm, rfl⟩
    · rcases husual : p.labels.labelFor n with _ | usual
      · exact ⟨_, .unlabelled hn husual (not_and.1 hother), rfl, rfl⟩
      · have hsame : label = .str usual :=
          ((h.labelled n hn).resolve_left fun hboth ↦ hother hboth.symm) usual husual
        rw [hsame]
        exact settled_of_label hn husual fun heq _ ↦ heq ▸ hint
  · exact ⟨_, .absent hid (h.unlabelled hid), rfl, rfl⟩

/-- Corrected fields agree, unless the number is spelled out as a text. -/
theorem Rule.agreeing {c : Correction} (h : p.Rule id label c) (htext : ∀ t, c.idOf id ≠ .str t) :
    p.Agreeing (c.idOf id) (c.labelOf label) where
  unlabelled hnull := by
    rcases h with ⟨-, hlabel⟩ | _ | _ | ⟨hid, -⟩ | ⟨hm, -, -⟩ | _ | ⟨hm, -, -⟩
    · exact hlabel
    · cases hnull
    · cases hnull
    · exact absurd (hid.symm.trans hnull) (by simp)
    · exact absurd ((Json.isNull_of_asInteger? hm).symm.trans hnull) (by simp)
    · cases hnull
    · exact absurd ((Json.isNull_of_asInteger? hm).symm.trans hnull) (by simp)
  integer _ hn := Json.eq_int_of_asInteger? hn htext
  labelled n hn := by
    by_cases hother : n = otherId ∧ (c.labelOf label).isLabel = true
    · exact .inl hother
    · refine .inr fun usual husual ↦ ?_
      have hlabel :=
        h.label_eq hn (fun heq ↦ Bool.eq_false_iff.2 fun hgiven ↦ hother ⟨heq, hgiven⟩) husual
      rw [Correction.labelOf, hlabel]
      rfl

/-- What putting in a number or a label keeps is kept when the fields of a pair are made to
agree. -/
theorem reconcile_induction {P : Payload → Prop}
    (hid : ∀ data k, P data → P (Entries.put data p.idField (.int k)))
    (hlabel : ∀ data text, P data → P (Entries.put data p.labelField (.str text)))
    (h : p.reconcile data = .ok out) (hdata : P data) : P out := by
  obtain rfl | ⟨k, rfl⟩ | ⟨text, rfl⟩ | ⟨k, text, rfl⟩ := reconcile_cases h
  · exact hdata
  · exact hid _ k hdata
  · exact hlabel _ text hdata
  · exact hlabel _ text (hid _ k hdata)

end SiblingPair

namespace Payload

variable {pairs : List SiblingPair}

/-- What each number and label that is put into a payload keeps, reconciling keeps. -/
theorem reconcile_induction {P : Payload → Prop}
    (hid : ∀ p ∈ pairs, ∀ data k, P data → P (Entries.put data p.idField (.int k)))
    (hlabel : ∀ p ∈ pairs, ∀ data text, P data → P (Entries.put data p.labelField (.str text)))
    (h : data.reconcile pairs = .ok out) (hdata : P data) : P out := by
  induction pairs generalizing data with
  | nil =>
    cases h
    exact hdata
  | cons p pairs ih =>
    obtain ⟨next, hnext, h⟩ := bind_eq_ok h
    obtain ⟨hidFirst, hid⟩ := List.forall_mem_cons.1 hid
    obtain ⟨hlabelFirst, hlabel⟩ := List.forall_mem_cons.1 hlabel
    exact ih hid hlabel h (SiblingPair.reconcile_induction hidFirst hlabelFirst hnext hdata)

/-- What holds of numbers and texts is kept when the fields of pairs are made to agree, and only the
field of a number can become one. -/
theorem keeps_of_reconcile {P : Json → Prop} (hint : (∃ p ∈ pairs, p.idField = n) → ∀ k, P (.int k))
    (htext : ∀ text, P (.str text)) (h : data.reconcile pairs = .ok out) (hn : P (data.value n)) :
    P (out.value n) := by
  refine reconcile_induction (P := fun data ↦ P (data.value n)) (fun p hp data k hdata ↦ ?_)
    (fun p _ data text hdata ↦ ?_) h hn
  · rw [value_put]
    split
    · next hfield => exact hint ⟨p, hp, hfield⟩ k
    · exact hdata
  · rw [value_put]
    split
    · exact htext text
    · exact hdata

/-- Pairs without a common field agree one and all once they were made to one after another. -/
theorem agreeing_of_reconcile (hapart : (pairs.flatMap SiblingPair.fields).Nodup)
    (h : data.reconcile pairs = .ok out)
    (htext : ∀ p ∈ pairs, ∀ text, out.value p.idField ≠ .str text) :
    ∀ p ∈ pairs, p.Agreeing (out.value p.idField) (out.value p.labelField) := by
  intro p hp
  obtain ⟨c, hc⟩ := exists_corrects_of_reconcile hapart h hp
  have htext := htext p hp
  rw [hc.value_id] at htext
  rw [hc.value_id, hc.value_label]
  exact hc.rule.agreeing htext

/-! ### Identifiers that are filled in -/

/-- A value that is given is not replaced. -/
theorem value_putMissing_of_given {key : String} (h : (data.value n).isNull = false) :
    (data.putMissing key v).value n = data.value n := by
  rw [putMissing]
  split
  · next hmissing =>
    rw [value_put, if_neg fun heq ↦ ?_]
    rw [heq, h] at hmissing
    cases hmissing
  · rfl

/-- Nothing is put where a value is given. -/
theorem putMissing_of_given {key : String} (h : (data.value key).isNull = false) :
    data.putMissing key v = data :=
  if_neg (Bool.eq_false_iff.1 h)

/-- Something is given where a value other than null was to be put. -/
theorem given_putMissing {key : String} (hv : v.isNull = false) :
    ((data.putMissing key v).value key).isNull = false := by
  rw [putMissing]
  split
  · rw [value_put, if_pos rfl]
    exact hv
  · next hgiven => exact Bool.eq_false_iff.2 hgiven

/-- Filling in the type changes no other field. -/
theorem value_putTypeUid_of_ne (hn : "type_uid" ≠ n) :
    (putTypeUid data).value n = data.value n := by
  rcases putTypeUid_cases data with ⟨classUid, activity, -, -, heq⟩ | ⟨-, heq⟩
  · rw [heq, value_putMissing_of_ne hn]
  · rw [heq]

/-- Filling in the type changes no value that is given. -/
theorem value_putTypeUid_of_given (h : (data.value n).isNull = false) :
    (putTypeUid data).value n = data.value n := by
  rcases putTypeUid_cases data with ⟨classUid, activity, -, -, heq⟩ | ⟨-, heq⟩
  · rw [heq, value_putMissing_of_given h]
  · rw [heq]

/-- Filling in identifiers changes no other field. -/
theorem value_prefill_of_not_mem (config : UidConfig) (hn : n ∉ filledFields) :
    (prefill config data).value n = data.value n := by
  simp only [filledFields, List.mem_cons, List.not_mem_nil, or_false, not_or] at hn
  obtain ⟨hcategory, hclass, htype⟩ := hn
  rw [prefill, value_putTypeUid_of_ne (Ne.symm htype), value_putMissing_of_ne (Ne.symm hclass),
    value_putMissing_of_ne (Ne.symm hcategory)]

/-- What is given is kept. -/
theorem value_prefill_of_given (config : UidConfig) (h : (data.value n).isNull = false) :
    (prefill config data).value n = data.value n := by
  have hcategory :
      (data.putMissing "category_uid" config.categoryUid.toJson).value n = data.value n :=
    value_putMissing_of_given h
  have hclass : ((data.putMissing "category_uid" config.categoryUid.toJson).putMissing "class_uid"
      config.classUid.toJson).value n = data.value n :=
    (value_putMissing_of_given (hcategory ▸ h)).trans hcategory
  rw [prefill, value_putTypeUid_of_given (hclass ▸ h), hclass]

theorem isStrict_toJson_uid (uid : Uid) : uid.toJson.IsStrict := by
  cases uid with
  | number n => exact .inr (.inl ⟨n, rfl⟩)
  | truth b => exact .inr (.inr ⟨b, rfl⟩)

theorem isNull_toJson_uid (uid : Uid) : uid.toJson.isNull = false :=
  (isStrict_toJson_uid uid).isNull

/-- The identifiers of the category and of the class are there in the end, and so is that of the
type if it can be derived. -/
structure Filled (data : Payload) : Prop where
  category : (data.value "category_uid").isNull = false
  eventClass : (data.value "class_uid").isNull = false
  type : data.DerivesType → (data.value "type_uid").isNull = false

/-- The identifiers are there after they were filled in. -/
theorem filled_prefill (config : UidConfig) (data : Payload) : (prefill config data).Filled := by
  generalize hdata :
    (data.putMissing "category_uid" config.categoryUid.toJson).putMissing "class_uid"
    config.classUid.toJson = inner
  have hclass : (inner.value "class_uid").isNull = false :=
    hdata ▸ given_putMissing (isNull_toJson_uid _)
  have hcategory : (inner.value "category_uid").isNull = false := by
    rw [← hdata, value_putMissing_of_ne (by decide)]
    exact given_putMissing (isNull_toJson_uid _)
  rw [prefill, hdata]
  refine ⟨?_, ?_, fun hderives ↦ ?_⟩
  · rwa [value_putTypeUid_of_given hcategory]
  · rwa [value_putTypeUid_of_given hclass]
  · rcases putTypeUid_cases inner with ⟨classUid, activity, -, -, heq⟩ | ⟨hnot, heq⟩
    · rw [heq]
      exact given_putMissing rfl
    · rw [heq] at hderives
      exact absurd hderives hnot

/-- Nothing is filled in where everything is there. -/
theorem Filled.prefill (h : data.Filled) (config : UidConfig) : prefill config data = data := by
  rw [Payload.prefill, putMissing_of_given h.category, putMissing_of_given h.eventClass]
  rcases putTypeUid_cases data with ⟨classUid, activity, hclass, hactivity, heq⟩ | ⟨-, heq⟩
  · rw [heq, putMissing_of_given (h.type ⟨classUid, activity, hclass, hactivity⟩)]
  · exact heq

/-- What putting in a text, an integer or a truth value keeps is kept when identifiers are filled
in. -/
theorem prefill_induction {P : Payload → Prop}
    (hput : ∀ data key v, v.IsStrict → P data → P (Entries.put data key v))
    (config : UidConfig) (hdata : P data) : P (prefill config data) := by
  have hmissing {data : Payload} (hdata : P data) (key : String) {v : Json} (hv : v.IsStrict) :
      P (data.putMissing key v) := by
    rw [putMissing]
    split
    · exact hput _ _ _ hv hdata
    · exact hdata
  have hinner : P ((data.putMissing "category_uid" config.categoryUid.toJson).putMissing "class_uid"
      config.classUid.toJson) :=
    hmissing (hmissing hdata _ (isStrict_toJson_uid _)) _ (isStrict_toJson_uid _)
  rw [prefill]
  rcases putTypeUid_cases
    ((data.putMissing "category_uid" config.categoryUid.toJson).putMissing "class_uid"
    config.classUid.toJson) with ⟨classUid, activity, -, -, heq⟩ | ⟨-, heq⟩
  · rw [heq]
    exact hmissing hinner _ (.inr (.inl ⟨_, rfl⟩))
  · rw [heq]
    exact hinner

end Payload

/-! ### Values that were written down -/

/-- What is written down of a value: null only for null, the same text for a text, and an integer
only for that or for what was taken for it. -/
structure Json.Kept (v w : Json) : Prop where
  null : w.isNull = v.isNull
  text : ∀ t, w = .str t ↔ v = .str t
  integer : ∀ k, w = .int k → v = .int k ∨ v.isLoose = true

theorem Json.Kept.refl (v : Json) : v.Kept v := ⟨rfl, fun _ ↦ Iff.rfl, fun _ ↦ .inl⟩

/-- A value is kept by another where neither is null, neither is a text, and the other is no integer
either. -/
theorem Json.kept_of_ne {v w : Json} (hnull : w.isNull = v.isNull) (htext : ∀ t, v ≠ .str t)
    (htext' : ∀ t, w ≠ .str t) (hint : ∀ k, w = .int k → v.isLoose = true) : v.Kept w :=
  ⟨hnull, fun t ↦ iff_of_false (htext' t) (htext t), fun k hk ↦ .inr (hint k hk)⟩

/-- The fields of a pair agree when they were written down, unless the number was a text or no
integer. -/
theorem SiblingPair.Agreeing.kept {id' label' : Json} (h : p.Agreeing id label) (hid : id.Kept id')
    (hlabel : label.Kept label') (htext : ∀ t, id ≠ .str t) (hloose : id.isLoose = false) :
    p.Agreeing id' label' := by
  have hint (k : Int) (hk : id'.asInteger? = some k) : id' = .int k :=
    Json.eq_int_of_asInteger? hk fun t ht ↦ htext t ((hid.text t).1 ht)
  have hsame (k : Int) (hk : id'.asInteger? = some k) : id.asInteger? = some k := by
    rcases hid.integer k (hint k hk) with heq | hcounted
    · rw [heq]
      rfl
    · rw [hloose] at hcounted
      cases hcounted
  have hisLabel : label'.isLabel = label.isLabel := Json.isLabel_of_text_iff hlabel.null hlabel.text
  refine ⟨fun hnull ↦ hisLabel.trans (h.unlabelled (hid.null.symm.trans hnull)), hint,
    fun k hk ↦ ?_⟩
  exact (h.labelled k (hsame k hk)).imp (fun hboth ↦ ⟨hboth.1, hisLabel.trans hboth.2⟩)
    fun hall text htext ↦ (hlabel.text text).2 (hall text htext)

namespace Payload

variable {V : Validator} {models : Table Model} {m : Model}
  {outcome : FieldRule → Option Accepted} {isArray : Bool} {content : Package.Content}
  {a : Accepted} {type : ScalarType}

/-- A value without fields is kept when it is written down, unless it becomes null. -/
theorem kept_of_scalar (hW : V.Writes)
    (hnull : (V.toJson (.scalar type v)).isNull = v.isNull) :
    v.Kept (V.toJson (.scalar type v)) where
  null := hnull
  text t := hW.toJson_eq_iff (.inl ⟨t, rfl⟩)
  integer k hk := .inl ((hW.toJson_eq_iff (.inr ⟨k, rfl⟩)).1 hk)

/-- An accepted value is kept when it is written down, unless it becomes null. -/
theorem kept_of_check (hV : V.Checks) (hW : V.Writes)
    (h : V.check models v isArray content = .ok a) (hnull : (V.toJson a).isNull = v.isNull) :
    v.Kept (V.toJson a) := by
  cases hV.outcome h with
  | items items content vs hitems =>
    rw [hW.items]
    exact Json.kept_of_ne rfl (by simp) (by simp) (by simp)
  | object members object m a hmodel hmembers =>
    obtain ⟨data, outcome, -, -, -, rfl⟩ := hV.exists_obj hmembers
    rw [toJson_model hW]
    exact Json.kept_of_ne rfl (by simp) (by simp) (by simp)
  | number v numbers k hmem hvalue =>
    rw [hW.number] at hnull ⊢
    obtain rfl | hloose := hvalue
    · exact .refl _
    · refine Json.kept_of_ne hnull (fun t ht ↦ ?_) (by simp) fun _ _ ↦ hloose
      rw [ht] at hloose
      cases hloose
  | loose v type => exact kept_of_scalar hW hnull
  | strict v type => exact kept_of_scalar hW hnull
  | double v x hvalue =>
    have hother {w : Json} (hw : (∃ text, w = .str text) ∨ ∃ n, w = .int n) :
        V.toJson (.scalar .double (.float x)) ≠ w := fun heq ↦ by
      have hfloat := (hW.toJson_eq_iff hw).1 heq
      obtain ⟨_, rfl⟩ | ⟨_, rfl⟩ := hw <;> cases hfloat
    refine Json.kept_of_ne hnull (fun t ht ↦ ?_) (fun t ↦ hother (.inl ⟨t, rfl⟩)) fun k hk ↦
      absurd hk (hother (.inr ⟨k, rfl⟩))
    rw [ht] at hvalue
    obtain hvalue | ⟨n, hvalue, -⟩ := hvalue <;> cases hvalue

/-- Only fields of numbers take other values for integers. -/
theorem eq_int_of_check (hV : V.Checks) (hW : V.Writes) {k : Int}
    (h : V.check models v isArray content = .ok a)
    (hcontent : ∀ numbers, content ≠ .numbers numbers) (ha : V.toJson a = .int k) : v = .int k := by
  cases hV.outcome h with
  | items items content vs hitems => rw [hW.items] at ha; cases ha
  | object members object m a hmodel hmembers =>
    obtain ⟨data, outcome, -, -, -, rfl⟩ := hV.exists_obj hmembers
    rw [toJson_model hW] at ha
    cases ha
  | number v numbers => exact absurd rfl (hcontent numbers)
  | loose v type => exact (hW.toJson_eq_iff (.inr ⟨k, rfl⟩)).1 ha
  | strict v type => exact (hW.toJson_eq_iff (.inr ⟨k, rfl⟩)).1 ha
  | double v x hvalue => cases (hW.toJson_eq_iff (.inr ⟨k, rfl⟩)).1 ha

/-- What is written down of the value of a member: the value itself, or what a field of that name
accepted it as, or what is written down of members that are no fields. -/
inductive WrittenAs (V : Validator) (models : Table Model) (m : Model) (n : String) (v : Json) :
    Json → Prop where
  /-- It is written down as it is. -/
  | same : WrittenAs V models m n v v
  /-- It is written down as a field accepted it. -/
  | accepted (r : FieldRule) (a : Accepted) (hr : r ∈ m.fields.values) (hkey : r.key = n)
    (hcheck : V.check models v r.isArray r.content = .ok a)
    (hnull : (V.toJson a).isNull = v.isNull) : WrittenAs V models m n v (V.toJson a)
  /-- It is written down as it was left over. -/
  | left (hnull : (V.toJson (.scalar .unknown v)).isNull = v.isNull) :
    WrittenAs V models m n v (V.toJson (.scalar .unknown v))

/-- What is written down of a value keeps its kind. -/
theorem WrittenAs.kept (hV : V.Checks) (hW : V.Writes) {w : Json}
    (h : WrittenAs V models m n v w) : v.Kept w := by
  cases h with
  | same => exact .refl v
  | accepted r a hr hkey hcheck hnull => exact kept_of_check hV hW hcheck hnull
  | left hnull => exact kept_of_scalar hW hnull

/-- An integer is written down for that integer, unless the field lists its numbers. -/
theorem WrittenAs.eq_int (hV : V.Checks) (hW : V.Writes) {k : Int}
    (h : WrittenAs V models m n v (.int k))
    (hcontent : ∀ r ∈ m.fields.values, r.key = n → ∀ numbers, r.content ≠ .numbers numbers) :
    v = .int k := by
  generalize hw : Json.int k = w at h
  cases h with
  | same => rfl
  | accepted r a hr hkey hcheck hnull =>
    exact hw ▸ eq_int_of_check hV hW hcheck (hcontent r hr hkey) hw.symm
  | left hnull => exact hw ▸ (hW.toJson_eq_iff (.inr ⟨k, rfl⟩)).1 hw.symm

end Payload

/-- An attribute has a field of its own, and a payload gives that by no other name. -/
def Model.Names (m : Model) (data : Payload) (n : String) : Prop :=
  ∃ r ∈ m.fields.values, r.key = n ∧ (r.name = n ∨ r.name ∉ Entries.names data)

namespace Payload

variable {V : Validator} {models : Table Model} {m : Model}
  {outcome : FieldRule → Option Accepted}

theorem value_eq_of_get? {key : String} (h : Entries.get? data key = some v) :
    data.value key = v := by
  rw [value, h]
  rfl

/-- What a payload gives for a field by no other name than that of its attribute is written down of
it. -/
theorem writtenAs_of_names (hV : V.Checks) (hm : m.Regular)
    (houtcome : ∀ r ∈ m.fields.values, V.FieldOutcome models data r (outcome r))
    (hall : ShowsAll V m outcome data) (hn : m.Names data n) :
    WrittenAs V models m n (data.value n) ((written V m outcome data).value n) := by
  obtain ⟨r, hr, rfl, hname⟩ := hn
  have hkey {key : String} {v : Json} (hmember : memberOf? r data = some (key, v)) :
      data.value r.key = v := by
    rcases name_of_memberOf? hmember with heq | heq
    · exact value_eq_of_get? (heq ▸ get?_of_memberOf? hmember)
    · rcases hname with hname | hname
      · rw [← hname]
        exact value_eq_of_get? (heq ▸ get?_of_memberOf? hmember)
      · refine absurd ?_ hname
        rw [← heq]
        exact List.mem_map_of_mem (Entries.mem_of_get? (get?_of_memberOf? hmember))
  have hout := houtcome r hr
  have hshows := hall.fields r hr
  have hwritten : (written V m outcome data).value r.key = (shown V (outcome r)).getD .null := by
    rw [value, get?_written_key hm hr]
  rw [hwritten]
  generalize outcome r = o at hout hshows
  cases hout with
  | absent hnone hoptional =>
    rw [value_eq_null_of_not_mem (memberOf?_eq_none_iff.1 hnone).1]
    exact .same
  | null key hmember hoptional =>
    rw [hkey hmember]
    exact .same
  | value key v a hmember hgiven hcheck =>
    rw [hkey hmember]
    have hv := hV.isNull_eq hcheck
    cases hnull : a.isNull with
    | true =>
      rw [shown_of_null hnull, Json.isNull_iff.1 (hv.symm.trans hnull)]
      exact .same
    | false =>
      rw [shown_of_given hnull]
      exact .accepted r a hr rfl hcheck ((hshows a rfl hnull).trans (hnull.symm.trans hv))

/-- What no field takes is written down as it was left over. -/
theorem writtenAs_of_left (hall : ShowsAll V m outcome data) (hdata : (Entries.names data).Nodup)
    (hleft : ∀ r ∈ m.fields.values, r.key ≠ n ∧ r.name ≠ n) :
    WrittenAs V models m n (data.value n) ((written V m outcome data).value n) := by
  rw [value, value, get?_written_of_ne fun r hr ↦ (hleft r hr).1]
  cases hget : Entries.get? data n with
  | none =>
    rw [get?_shownExtras_eq_none_iff.2 fun e he heq ↦ ?_]
    · exact .same
    · refine absurd ?_ (Entries.get?_eq_none_iff.1 hget)
      exact heq ▸ List.mem_map_of_mem (mem_extrasOf_iff.1 he).1
  | some v =>
    have hextra : (n, v) ∈ extrasOf m data :=
      mem_extrasOf (Entries.mem_of_get? hget) fun r hr ↦ ⟨(hleft r hr).1.symm, (hleft r hr).2.symm⟩
    have hsame {e : String × Json} (he : e ∈ extrasOf m data) (heq : e.1 = n) : e.2 = v := by
      rw [← heq, Entries.get?_of_mem hdata (mem_extrasOf_iff.1 he).1] at hget
      exact Option.some.inj hget
    cases hnull : v.isNull with
    | true =>
      rw [get?_shownExtras_eq_none_iff.2 fun e he heq ↦ hsame he heq ▸ hnull,
        Json.isNull_iff.1 hnull]
      exact .same
    | false =>
      have hnodup : (Entries.names (shownExtras V (extrasOf m data))).Nodup := by
        rw [names_shownExtras]
        exact Entries.nodup_names_filter (Entries.nodup_names_filter hdata _) _
      rw [Entries.get?_of_mem hnodup (mem_shownExtras.2 ⟨v, hextra, hnull, rfl⟩)]
      exact .left ((hall.extras (n, v) hextra hnull).trans hnull.symm)

end Payload

/-! ### Event classes -/

/-- What a payload of an event class must not do for its preparation to be settled once and for
all. -/
structure EventModel.Unmixed (m : EventModel) (data : Payload) : Prop where
  /-- No member is given twice. -/
  nodup : (Entries.names data).Nodup
  /-- No field is in two places of the pairs. -/
  apart : (m.pairs.flatMap SiblingPair.fields).Nodup
  /-- No label is an identifier that is filled in. -/
  label : ∀ p ∈ m.pairs, p.labelField ∉ Payload.filledFields
  /-- The fields of pairs are given by the names of their attributes alone. -/
  names : ∀ p ∈ m.pairs, ∀ field ∈ p.fields, m.model.Names data field
  /-- No number of a pair is given as a truth value or a double. -/
  integer : ∀ p ∈ m.pairs, (data.value p.idField).isLoose = false
  /-- Neither is the activity, from which the type is derived. -/
  activity : (data.value "activity_id").isLoose = false

namespace EventModel

variable {V : Validator} {e : Entity} {m : EventModel} {models : Table Model}
  {outcome : FieldRule → Option Payload.Accepted}

open Payload

/-- A field whose name is its own field name and does not end in an underscore is taken by its name
or not at all. -/
theorem writtenAs_of_fieldName (hV : V.Checks)
    (houtcome : ∀ r ∈ (Model.ofEntity e).fields.values, V.FieldOutcome models data r (outcome r))
    (hall : ShowsAll V (.ofEntity e) outcome data) (hdata : (Entries.names data).Nodup)
    (hn : Identifier.fieldName n = n) (hlast : n.toList.getLast? ≠ some '_') :
    WrittenAs V models (.ofEntity e) n (data.value n)
      ((written V (.ofEntity e) outcome data).value n) := by
  have hname {r : FieldRule} (hr : r ∈ (Model.ofEntity e).fields.values) :
      r.name = Identifier.fieldName r.key := by
    obtain ⟨a, -, rfl⟩ := Model.exists_of_mem_ofEntity hr
    rfl
  by_cases hfield : ∃ r ∈ (Model.ofEntity e).fields.values, r.key = n
  · obtain ⟨r, hr, hkey⟩ := hfield
    refine writtenAs_of_names hV (Model.regular_ofEntity e) houtcome hall ⟨r, hr, hkey, .inl ?_⟩
    rw [hname hr, hkey, hn]
  · refine writtenAs_of_left hall hdata fun r hr ↦ ?_
    refine ⟨fun hkey ↦ hfield ⟨r, hr, hkey⟩, fun heq ↦ hfield ⟨r, hr, ?_⟩⟩
    exact Identifier.eq_of_fieldName_eq hlast ((hname hr).symm.trans heq)

/-- An enumeration is not checked as a scalar. -/
theorem content_ne_scalar {a : Attribute} (h : a.isEnum = true) (type : ScalarType) :
    Package.contentOf a ≠ .scalar type := by
  rw [Package.contentOf]
  split
  · exact nofun
  · rw [if_pos h]
    exact nofun

/-- Only an attribute whose name ends in `_id` is checked by numbers. -/
theorem content_ne_numbers {a : Attribute} (h : a.name.endsWith "_id" = false)
    (numbers : List Int) :
    Package.contentOf a ≠ .numbers numbers := by
  have henum : a.isEnum = false := by rw [Attribute.isEnum, h, Bool.and_false]
  rw [Package.contentOf, henum]
  split
  · exact nofun
  · rw [if_neg Bool.false_ne_true]
    exact nofun

/-- A text is accepted as a scalar alone. -/
theorem exists_scalar_of_str (hV : V.Checks) {text : String} {isArray : Bool}
    {content : Package.Content} {a : Accepted}
    (h : V.check models (.str text) isArray content = .ok a) : ∃ type, content = .scalar type := by
  cases hV.outcome h with
  | number v numbers k hmem hvalue => obtain hvalue | hvalue := hvalue <;> cases hvalue
  | loose v type => exact ⟨type, rfl⟩
  | strict v type => exact ⟨type, rfl⟩
  | double v x => exact ⟨.double, rfl⟩

/-- The field of the number of a pair holds no scalars. -/
theorem content_of_idField (hm : EventModel.ofEntity e = .ok m)
    (hkeyed : KeyedAttributes e.attributes) {p : SiblingPair} (hp : p ∈ m.pairs) {r : FieldRule}
    (hr : r ∈ m.model.fields.values) (hkey : r.key = p.idField)
    (type : ScalarType) : r.content ≠ .scalar type := by
  obtain ⟨hmodel, -, hpairs⟩ := parts_of_ofEntity hm
  obtain ⟨a, ha, hid, henum, -⟩ := hpairs p hp
  obtain ⟨b, hb, rfl⟩ := Model.exists_of_mem_ofEntity (hmodel ▸ hr)
  obtain ⟨n, hn⟩ := Table.mem_values_iff.1 ha
  obtain ⟨k, hk⟩ := Table.mem_values_iff.1 hb
  have hname : b.name = a.name := hkey.trans hid
  rw [← hkeyed n a hn, ← hname, hkeyed k b hk, hk] at hn
  cases hn
  exact content_ne_scalar henum type

/-- The number of a pair is no text in a payload that is accepted. -/
theorem value_idField_ne_str (hV : V.Checks) (hm : EventModel.ofEntity e = .ok m)
    (hkeyed : KeyedAttributes e.attributes)
    (houtcome : ∀ r ∈ m.model.fields.values, V.FieldOutcome models data r (outcome r))
    {p : SiblingPair} (hp : p ∈ m.pairs) (hnames : m.model.Names data p.idField) (text : String) :
    data.value p.idField ≠ .str text := by
  intro htext
  obtain ⟨r, hr, hkey, -⟩ := hnames
  have hget : Entries.get? data r.key = some (.str text) := by
    rw [hkey]
    rw [value] at htext
    cases hget : Entries.get? data p.idField with
    | none => rw [hget] at htext; cases htext
    | some v => rw [hget] at htext; exact congrArg some htext
  have hmember := memberOf?_of_key hget
  have hout := houtcome r hr
  generalize outcome r = o at hout
  cases hout with
  | absent hnone => rw [hmember] at hnone; cases hnone
  | null key hnull => rw [hmember] at hnull; cases hnull
  | value key v c hvalue hgiven hcheck =>
    rw [hmember] at hvalue
    cases hvalue
    obtain ⟨type, htype⟩ := exists_scalar_of_str hV hcheck
    exact content_of_idField hm hkeyed hp hr hkey type htype

/-- No identifier that is filled in is the number of a pair. -/
theorem idField_not_mem_filledFields (hm : EventModel.ofEntity e = .ok m)
    {p : SiblingPair} (hp : p ∈ m.pairs) :
    p.idField ∉ filledFields := by
  obtain ⟨a, -, hid, henum, -⟩ := (parts_of_ofEntity hm).2.2 p hp
  have hnone : ∀ key ∈ filledFields, key.endsWith "_id" = false := by decide +kernel
  intro hfilled
  have hsuffix : p.idField.endsWith "_id" = true := hid ▸ (Bool.and_eq_true_iff.1 henum).2
  rw [hnone _ hfilled] at hsuffix
  cases hsuffix

/-- What putting in a text, an integer or a truth value keeps is kept when a payload is prepared. -/
theorem prepare_induction {P : Payload → Prop}
    (hput : ∀ data key v, v.IsStrict → P data → P (Entries.put data key v))
    (h : m.prepare data = .ok out) (hdata : P data) : P out := by
  obtain ⟨agreed, hagreed, rfl⟩ := exists_reconcile_of_prepare h
  exact prefill_induction hput _ (reconcile_induction
    (fun _ _ _ _ ↦ hput _ _ _ (.inr (.inl ⟨_, rfl⟩))) (fun _ _ _ _ ↦ hput _ _ _ (.inl ⟨_, rfl⟩))
    hagreed hdata)

/-- A prepared payload has each of its names once. -/
theorem nodup_of_prepare (h : m.prepare data = .ok out) (hdata : (Entries.names data).Nodup) :
    (Entries.names out).Nodup :=
  prepare_induction (P := fun data ↦ (Entries.names data).Nodup)
    (fun _ _ _ _ hdata ↦ Entries.nodup_names_put hdata _ _) h hdata

theorem getLast?_filledFields : ∀ n ∈ filledFields, n.toList.getLast? ≠ some '_' := by
  decide

/-- Preparing a payload does not give the fields of pairs by other names. -/
theorem names_of_prepare (hm : EventModel.ofEntity e = .ok m) (h : m.prepare data = .ok out)
    (hdata : m.Unmixed data) : ∀ p ∈ m.pairs, ∀ field ∈ p.fields, m.model.Names out field := by
  intro p hp field hfield
  obtain ⟨hmodel, -, -⟩ := parts_of_ofEntity hm
  obtain ⟨agreed, hagreed, rfl⟩ := exists_reconcile_of_prepare h
  obtain ⟨r, hr, hkey, hname⟩ := hdata.names p hp field hfield
  have hfield {n : String} (hn : r.name = n) (hkeyed : r.key = n) : r.name = field :=
    hn.trans (hkeyed.symm.trans hkey)
  by_cases hsame : r.name = field
  · exact ⟨r, hr, hkey, .inl hsame⟩
  refine ⟨r, hr, hkey, .inr fun hmem ↦ hsame ?_⟩
  have hfilled (hn : r.name ∈ filledFields) : r.name = field := by
    refine hfield rfl (Identifier.eq_of_fieldName_eq (getLast?_filledFields _ hn) ?_)
    obtain ⟨a, -, rfl⟩ := Model.exists_of_mem_ofEntity (hmodel ▸ hr)
    rfl
  rcases (mem_names_prefill _ _).1 hmem with hmem | hcategory | hclass | ⟨htype, -⟩
  · rcases Payload.names_of_reconcile hagreed hmem with hmem | ⟨q, hq, hpair⟩
    · exact absurd hmem (hname.resolve_left hsame)
    · -- the field of another pair has an attribute of that name, so it is no other name of this one
      have hmem : r.name ∈ q.fields := by
        rcases hpair with heq | heq
        · exact heq ▸ List.mem_cons_self
        · exact heq ▸ List.mem_cons_of_mem _ List.mem_cons_self
      obtain ⟨s, hs, hskey, -⟩ := hdata.names q hq _ hmem
      obtain rfl := (hmodel ▸ Model.regular_ofEntity e : m.model.Regular).apart r hr s hs hskey.symm
      exact hfield rfl hskey
  · exact hfilled (hcategory ▸ by decide)
  · exact hfilled (hclass ▸ by decide)
  · exact hfilled (htype ▸ by decide)

/-- Reconciling makes no value loose that was not. -/
theorem isLoose_of_reconcile {agreed : Payload} (h : data.reconcile m.pairs = .ok agreed)
    (hn : (data.value n).isLoose = false) : (agreed.value n).isLoose = false :=
  keeps_of_reconcile (P := fun v ↦ v.isLoose = false) (fun _ _ ↦ rfl) (fun _ ↦ rfl) h hn

/-- In what was written down of an accepted payload the numbers and labels of pairs agree. -/
theorem agreeing_written (hV : V.Checks) (hW : V.Writes) (hm : EventModel.ofEntity e = .ok m)
    (hkeyed : KeyedAttributes e.attributes) (h : m.prepare data = .ok out) (hdata : m.Unmixed data)
    (houtcome : ∀ r ∈ m.model.fields.values, V.FieldOutcome models out r (outcome r))
    (hall : ShowsAll V m.model outcome out) :
    ∀ p ∈ m.pairs, p.Agreeing ((written V m.model outcome out).value p.idField)
      ((written V m.model outcome out).value p.labelField) := by
  obtain ⟨agreed, hagreed, rfl⟩ := exists_reconcile_of_prepare h
  obtain ⟨hmodel, -, -⟩ := parts_of_ofEntity hm
  have hregular : m.model.Regular := hmodel ▸ Model.regular_ofEntity e
  have hid {p : SiblingPair} (hp : p ∈ m.pairs) :
      (prefill m.config agreed).value p.idField = agreed.value p.idField :=
    value_prefill_of_not_mem _ (idField_not_mem_filledFields hm hp)
  have hlabel {p : SiblingPair} (hp : p ∈ m.pairs) :
      (prefill m.config agreed).value p.labelField = agreed.value p.labelField :=
    value_prefill_of_not_mem _ (hdata.label p hp)
  have hnames : ∀ p ∈ m.pairs, ∀ field ∈ p.fields, m.model.Names (prefill m.config agreed) field :=
    names_of_prepare hm h hdata
  have htext {p : SiblingPair} (hp : p ∈ m.pairs) (text : String) :
      (prefill m.config agreed).value p.idField ≠ .str text :=
    value_idField_ne_str hV hm hkeyed houtcome hp (hnames p hp _ List.mem_cons_self) text
  have hkept {p : SiblingPair} (hp : p ∈ m.pairs) {field : String} (hfield : field ∈ p.fields) :=
    (writtenAs_of_names hV hregular houtcome hall (hnames p hp field hfield)).kept hV hW
  intro p hp
  have hbefore := agreeing_of_reconcile hdata.apart hagreed
    (fun p hp text ↦ hid hp ▸ htext hp text) p hp
  rw [← hid hp, ← hlabel hp] at hbefore
  refine hbefore.kept (hkept hp List.mem_cons_self)
    (hkept hp (List.mem_cons_of_mem _ List.mem_cons_self)) (htext hp) ?_
  rw [hid hp]
  exact isLoose_of_reconcile hagreed (hdata.integer p hp)

/-- In what was written down of an accepted payload the identifiers are filled in. -/
theorem filled_written (hV : V.Checks) (hW : V.Writes) (hm : EventModel.ofEntity e = .ok m)
    (h : m.prepare data = .ok out) (hdata : m.Unmixed data)
    (houtcome : ∀ r ∈ m.model.fields.values, V.FieldOutcome models out r (outcome r))
    (hall : ShowsAll V m.model outcome out) : (written V m.model outcome out).Filled := by
  have hnodup : (Entries.names out).Nodup := nodup_of_prepare h hdata.nodup
  obtain ⟨agreed, hagreed, rfl⟩ := exists_reconcile_of_prepare h
  obtain ⟨hmodel, -, -⟩ := parts_of_ofEntity hm
  have hwritten {n : String} (hn : Identifier.fieldName n = n)
      (hlast : n.toList.getLast? ≠ some '_') :
      WrittenAs V models m.model n ((prefill m.config agreed).value n)
        ((written V m.model outcome (prefill m.config agreed)).value n) := by
    rw [hmodel] at houtcome hall ⊢
    exact writtenAs_of_fieldName hV houtcome hall hnodup hn hlast
  have hclass := hwritten (n := "class_uid") (by decide +kernel) (by decide)
  have hactivity := hwritten (n := "activity_id") (by decide +kernel) (by decide)
  have hnumbers : ∀ r ∈ m.model.fields.values, r.key = "class_uid" →
      ∀ numbers, r.content ≠ .numbers numbers := by
    intro r hr hkey
    obtain ⟨b, -, rfl⟩ := Model.exists_of_mem_ofEntity (hmodel ▸ hr)
    have hname : b.name = "class_uid" := hkey
    exact content_ne_numbers (by rw [hname]; decide +kernel)
  have hloose : ((prefill m.config agreed).value "activity_id").isLoose = false := by
    rw [value_prefill_of_not_mem _ (by decide)]
    exact isLoose_of_reconcile hagreed hdata.activity
  have hkept {n : String} (hn : Identifier.fieldName n = n)
      (hlast : n.toList.getLast? ≠ some '_') := ((hwritten hn hlast).kept hV hW).null
  have hbefore := filled_prefill m.config agreed
  refine ⟨(hkept (by decide +kernel) (by decide)).trans hbefore.category,
    (hkept (by decide +kernel) (by decide)).trans hbefore.eventClass, ?_⟩
  rintro ⟨classUid, activity, hclassUid, hactivityId⟩
  refine (hkept (by decide +kernel) (by decide)).trans (hbefore.type ⟨classUid, activity, ?_, ?_⟩)
  · exact (hclassUid ▸ hclass).eq_int hV hW hnumbers
  · exact ((hactivity.kept hV hW).integer activity hactivityId).resolve_right
      (Bool.eq_false_iff.1 hloose)

/-- What was written down of an accepted payload is left as it is when it is prepared, if nothing
but null became null. -/
theorem prepare_written (hV : V.Checks) (hW : V.Writes) (hm : EventModel.ofEntity e = .ok m)
    (hkeyed : KeyedAttributes e.attributes) (h : m.prepare data = .ok out) (hdata : m.Unmixed data)
    (houtcome : ∀ r ∈ m.model.fields.values, V.FieldOutcome models out r (outcome r))
    (hall : ShowsAll V m.model outcome out) :
    m.prepare (written V m.model outcome out) = .ok (written V m.model outcome out) := by
  have hagreeing := agreeing_written hV hW hm hkeyed h hdata houtcome hall
  rw [prepare, reconcile_of_settled fun p hp ↦ (hagreeing p hp).settled]
  exact congrArg Except.ok ((filled_written hV hW hm h hdata houtcome hall).prefill m.config)

end EventModel

end EventSchema
