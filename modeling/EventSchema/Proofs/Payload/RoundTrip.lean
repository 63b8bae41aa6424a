import EventSchema.Proofs.Payload.Members
import EventSchema.Proofs.Payload.Validation

/-!
# Checking what was written down

What is written down of an accepted payload (`Payload.written`) holds each field that came out with
a value other than null under the name of its attribute, and then the other members that are not
null. When it is checked again, a field is found by the name of its attribute or not at all, so the
same is accepted and written down exactly if each part of the value stays
(`Payload.Accepted.Stable`): no field is null that may not be left out, and nothing but null becomes
null on the way (`Payload.checkModel_again_iff`).
-/

namespace EventSchema.Payload

variable {V : Validator} {models : Table Model} {m : Model} {data : Payload} {rule : FieldRule}
  {v : Json} {a : Accepted} {isArray : Bool} {content : Package.Content} {n : String}
  {extras : Entries Json} {outcome : FieldRule → Option Accepted}

/-! ### Writing down what was accepted -/

/-- What is written down of a field: its value unless that is null. -/
def shown (V : Validator) : Option Accepted → Option Json
  | none => none
  | some a => if a.isNull then none else some (V.toJson a)

theorem shown_of_null (h : a.isNull = true) : shown V (some a) = none := if_pos h

theorem shown_of_given (h : a.isNull = false) : shown V (some a) = some (V.toJson a) :=
  if_neg (Bool.eq_false_iff.1 h)

/-- The members that are written down of fields. -/
def shownFields (V : Validator) (rules : List FieldRule) (outcome : FieldRule → Option Accepted) :
    Entries Json :=
  rules.filterMap fun r ↦ (shown V (outcome r)).map (r.key, ·)

/-- The members that are written down of those that are no fields. -/
def shownExtras (V : Validator) (extras : Entries Json) : Entries Json :=
  (extras.filter fun e ↦ !e.2.isNull).map fun e ↦ (e.1, V.toJson (.scalar .unknown e.2))

/-- What is written down of a payload. -/
def written (V : Validator) (m : Model) (outcome : FieldRule → Option Accepted) (data : Payload) :
    Payload :=
  shownFields V m.fields.values outcome ++ shownExtras V (extrasOf m data)

/-- An accepted payload is written down field by field. -/
theorem toJson_model (hV : V.Writes) (m : Model) (outcome : FieldRule → Option Accepted)
    (data : Payload) :
    V.toJson (.model (Validator.givenFields m outcome) (extrasOf m data)) =
      .obj (written V m outcome data) := by
  rw [hV.model, written, shownExtras]
  refine congrArg (fun fields ↦ Json.obj (fields ++ _)) ?_
  rw [Validator.givenFields, shownFields]
  induction m.fields.values with
  | nil => rfl
  | cons r rest ih =>
    rw [List.filterMap_cons, List.filterMap_cons, ← ih]
    cases outcome r with
    | none => rfl
    | some a =>
      rw [Option.map_some]
      dsimp only
      rw [List.filter_cons, shown]
      cases a.isNull <;> rfl

/-- What is written down of fields is what is written down of each of them, under its key. -/
theorem mem_shownFields {rules : List FieldRule} :
    (n, v) ∈ shownFields V rules outcome ↔
      ∃ r ∈ rules, r.key = n ∧ shown V (outcome r) = some v := by
  rw [shownFields, List.mem_filterMap]
  refine exists_congr fun r ↦ and_congr_right fun _ ↦ ?_
  cases shown V (outcome r) with
  | none => exact ⟨nofun, nofun⟩
  | some w => rw [Option.map_some, Option.some_inj, Option.some_inj, Prod.mk.injEq]

/-- What is written down of fields stands in their order. -/
theorem names_shownFields (V : Validator) (rules : List FieldRule)
    (outcome : FieldRule → Option Accepted) :
    (shownFields V rules outcome).names.Sublist (rules.map (·.key)) := by
  induction rules with
  | nil => exact List.Sublist.slnil
  | cons r rest ih =>
    rw [shownFields, List.filterMap_cons, List.map_cons, ← shownFields]
    cases shown V (outcome r) with
    | none => exact ih.cons _
    | some v => exact ih.cons_cons _

/-- Fields whose attributes are told apart are found by the names of these. -/
theorem get?_shownFields {rules : List FieldRule} (hkeys : (rules.map (·.key)).Nodup)
    (hrule : rule ∈ rules) (outcome : FieldRule → Option Accepted) :
    (shownFields V rules outcome).get? rule.key = shown V (outcome rule) := by
  cases hshown : shown V (outcome rule) with
  | some v =>
    exact Entries.get?_of_mem ((names_shownFields V rules outcome).nodup hkeys)
      (mem_shownFields.2 ⟨rule, hrule, rfl, hshown⟩)
  | none =>
    refine Entries.get?_eq_none_iff.2 fun hmem ↦ ?_
    obtain ⟨⟨n, v⟩, hmem, rfl⟩ := List.mem_map.1 hmem
    obtain ⟨r, hr, hkey, hv⟩ := mem_shownFields.1 hmem
    rw [List.inj_on_of_nodup_map hkeys hr hrule hkey, hshown] at hv
    cases hv

/-- What is written down of other members is what is written down of each that is not null. -/
theorem mem_shownExtras : (n, v) ∈ shownExtras V extras ↔
    ∃ w, (n, w) ∈ extras ∧ w.isNull = false ∧ V.toJson (.scalar .unknown w) = v := by
  rw [shownExtras, List.mem_map]
  constructor
  · rintro ⟨e, he, heq⟩
    obtain ⟨he, hgiven⟩ := List.mem_filter.1 he
    obtain ⟨rfl, rfl⟩ := Prod.mk.inj heq
    exact ⟨e.2, he, (Bool.not_eq_true' _).mp hgiven, rfl⟩
  · rintro ⟨w, hw, hgiven, rfl⟩
    exact ⟨(n, w), List.mem_filter.2 ⟨hw, (Bool.not_eq_true' _).mpr hgiven⟩, rfl⟩

/-- What is written down of other members stands in their order. -/
theorem names_shownExtras (V : Validator) (extras : Entries Json) :
    (shownExtras V extras).names = Entries.names (extras.filter fun e ↦ !e.2.isNull) := by
  rw [shownExtras, Entries.names, Entries.names, List.map_map]
  rfl

theorem names_shownExtras_subset (V : Validator) (extras : Entries Json) :
    (shownExtras V extras).names ⊆ extras.names := by
  rw [names_shownExtras]
  exact List.map_subset _ (List.filter_subset_self extras)

/-- Nothing is written down of the other members of a name if they are all null. -/
theorem get?_shownExtras_eq_none_iff :
    (shownExtras V extras).get? n = none ↔ ∀ e ∈ extras, e.1 = n → e.2.isNull = true := by
  rw [Entries.get?_eq_none_iff, names_shownExtras, Entries.names]
  constructor
  · intro h e he hname
    by_contra hgiven
    exact h (List.mem_map.2 ⟨e, List.mem_filter.2 ⟨he, by simpa using hgiven⟩, hname⟩)
  · intro h hmem
    obtain ⟨e, he, hname⟩ := List.mem_map.1 hmem
    obtain ⟨he, hgiven⟩ := List.mem_filter.1 he
    rw [h e he hname] at hgiven
    cases hgiven

/-! ### Finding what was written down -/

/-- No other member goes by the key of a field. -/
theorem key_not_mem_shownExtras (hrule : rule ∈ m.fields.values) :
    rule.key ∉ (shownExtras V (extrasOf m data)).names :=
  fun hmem ↦ key_not_mem_extrasOf hrule (names_shownExtras_subset V _ hmem)

theorem get?_shownExtras_key (hrule : rule ∈ m.fields.values) :
    (shownExtras V (extrasOf m data)).get? rule.key = none :=
  Entries.get?_eq_none_iff.2 (key_not_mem_shownExtras hrule)

/-- What is written down under the key of a field is what is written down of the field. -/
theorem get?_written_key (hm : m.Regular) (hrule : rule ∈ m.fields.values) :
    Entries.get? (written V m outcome data) rule.key = shown V (outcome rule) := by
  rw [written, Entries.get?_append, get?_shownFields hm.keys hrule, get?_shownExtras_key hrule,
    Option.or_none]

/-- A name that is that of no attribute of a field is that of a member that is no field. -/
theorem get?_written_of_ne (hn : ∀ r ∈ m.fields.values, r.key ≠ n) :
    Entries.get? (written V m outcome data) n = (shownExtras V (extrasOf m data)).get? n := by
  have hfields : (shownFields V m.fields.values outcome).get? n = none :=
    Entries.get?_eq_none_iff.2 fun hmem ↦ by
      obtain ⟨r, hr, hkey⟩ := List.mem_map.1 ((names_shownFields _ _ _).subset hmem)
      exact hn r hr hkey
  rw [written, Entries.get?_append, hfields, Option.none_or]

/-- A field of which nothing is written down is found again only by its own name among the other
members. -/
theorem memberOf?_written_of_none (hm : m.Regular) (hrule : rule ∈ m.fields.values)
    (hshown : shown V (outcome rule) = none) : memberOf? rule (written V m outcome data) =
      ((shownExtras V (extrasOf m data)).get? rule.name).map (rule.name, ·) := by
  have hkey : Entries.get? (written V m outcome data) rule.key = none :=
    (get?_written_key hm hrule).trans hshown
  rw [memberOf?, hkey]
  dsimp only
  by_cases hname : rule.name = rule.key
  · rw [hname, hkey, get?_shownExtras_key hrule]
  · rw [get?_written_of_ne fun s hs heq ↦ hname ?_]
    rw [← hm.apart rule hrule s hs heq.symm] at heq
    exact heq.symm

/-- A field of which something is written down is found again by the name of its attribute. -/
theorem memberOf?_written_of_given (hm : m.Regular) (hrule : rule ∈ m.fields.values)
    (ha : outcome rule = some a) (hgiven : a.isNull = false) :
    memberOf? rule (written V m outcome data) = some (rule.key, V.toJson a) :=
  memberOf?_of_key (by rw [get?_written_key hm hrule, ha, shown_of_given hgiven])

/-- Where fields are found by the names of their attributes, the same other members are left over
again. -/
theorem extrasOf_written
    (htaken : ∀ r ∈ m.fields.values, ∀ taken, memberOf? r (written V m outcome data) = some taken →
      taken.1 = r.key) :
    extrasOf m (written V m outcome data) = shownExtras V (extrasOf m data) := by
  have hleft (e : String × Json) : e ∈ extrasOf m (written V m outcome data) ↔
      e ∈ written V m outcome data ∧ (!(m.fields.values.filterMap fun r ↦
        (memberOf? r (written V m outcome data)).map Prod.fst).contains e.1) = true :=
    List.mem_filter
  have hfields : (shownFields V m.fields.values outcome).filter (fun e ↦
      !(m.fields.values.filterMap fun r ↦
        (memberOf? r (written V m outcome data)).map Prod.fst).contains e.1) = [] := by
    refine List.filter_eq_nil_iff.2 fun e he hkept ↦ ?_
    have hextra := (hleft e).2 ⟨List.mem_append_left _ he, hkept⟩
    obtain ⟨r, hr, hkey, -⟩ := mem_shownFields.1 he
    exact key_not_mem_extrasOf hr (List.mem_map.2 ⟨e, hextra, hkey.symm⟩)
  have hextras : (shownExtras V (extrasOf m data)).filter (fun e ↦
      !(m.fields.values.filterMap fun r ↦
        (memberOf? r (written V m outcome data)).map Prod.fst).contains e.1) =
      shownExtras V (extrasOf m data) := by
    refine List.filter_eq_self.2 fun e he ↦ ((hleft e).1 (mem_extrasOf_iff.2
      ⟨List.mem_append_right _ he, ?_⟩)).2
    intro r hr taken hmember heq
    rw [htaken r hr taken hmember] at heq
    exact key_not_mem_shownExtras hr (List.mem_map.2 ⟨e, he, heq.symm⟩)
  rw [extrasOf, written, List.filter_append, ← written, hfields, hextras, List.nil_append]

/-! ### Nothing but null becomes null -/

/-- Nothing but null is written down as null of a payload. -/
structure ShowsAll (V : Validator) (m : Model) (outcome : FieldRule → Option Accepted)
    (data : Payload) : Prop where
  fields : ∀ r ∈ m.fields.values, ∀ a, outcome r = some a → a.isNull = false →
    (V.toJson a).isNull = false
  extras : ∀ e ∈ extrasOf m data, e.2.isNull = false →
    (V.toJson (.scalar .unknown e.2)).isNull = false

/-- Then no member that is written down is null. -/
theorem ShowsAll.given (h : ShowsAll V m outcome data) (hmem : (n, v) ∈ written V m outcome data) :
    v.isNull = false := by
  rcases List.mem_append.1 hmem with hmem | hmem
  · obtain ⟨r, hr, -, hshown⟩ := mem_shownFields.1 hmem
    cases ha : outcome r with
    | none => rw [ha] at hshown; cases hshown
    | some a =>
      cases hnull : a.isNull with
      | true => rw [ha, shown_of_null hnull] at hshown; cases hshown
      | false =>
        rw [ha, shown_of_given hnull] at hshown
        exact Option.some.inj hshown ▸ h.fields r hr a ha hnull
  · obtain ⟨w, hw, hgiven, rfl⟩ := mem_shownExtras.1 hmem
    exact h.extras (n, w) hw hgiven

/-- The other members that are written down are written down as they are. -/
theorem ShowsAll.shownExtras_eq (hV : V.Writes) (h : ShowsAll V m outcome data) :
    shownExtras V (shownExtras V (extrasOf m data)) = shownExtras V (extrasOf m data) := by
  have hkept : (shownExtras V (extrasOf m data)).filter (fun e ↦ !e.2.isNull) =
      shownExtras V (extrasOf m data) := List.filter_eq_self.2 fun e he ↦ by
    rw [h.given (List.mem_append_right _ he)]
    rfl
  rw [shownExtras, hkept]
  refine (List.map_congr_left fun e he ↦ ?_).trans (List.map_id _)
  obtain ⟨w, -, -, heq⟩ := mem_shownExtras.1 he
  exact Prod.ext rfl (heq ▸ hV.toJson_scalar_idem .unknown w)

/-! ### Values that stay -/

/-- A field may be left out: it is optional, and no member that is written down next to it goes by
its name. -/
def Omissible (extras : Entries Json) (rule : FieldRule) : Prop :=
  rule.isRequired = false ∧ ∀ e ∈ extras, e.1 = rule.name → e.2.isNull = true

namespace Accepted

mutual

/-- An accepted value stays when it is written down: in no object of it a field is null that may not
be left out, and nothing of it that is not null becomes null. -/
def Stable (V : Validator) : Accepted → Prop
  | .null => True
  | .scalar type v => type.takesAny = true ∨ (V.toJson (.scalar type v)).isNull = false
  | .number _ => True
  | .items vs => StableItems V vs
  | .model given extras => StableFields V extras given ∧
    ∀ e ∈ extras, e.2.isNull = false → (V.toJson (.scalar .unknown e.2)).isNull = false

/-- Accepted items stay. -/
def StableItems (V : Validator) : List Accepted → Prop
  | [] => True
  | v :: vs => v.Stable V ∧ StableItems V vs

/-- Accepted fields next to other members stay. -/
def StableFields (V : Validator) (extras : Entries Json) : List (FieldRule × Accepted) → Prop
  | [] => True
  | (rule, v) :: rest => (v.isNull = true → Omissible extras rule) ∧
    (v.isNull = false → (V.toJson v).isNull = false ∧ v.Stable V) ∧ StableFields V extras rest

end

/-- Items stay if each of them does. -/
theorem stableItems_iff {vs : List Accepted} : StableItems V vs ↔ ∀ v ∈ vs, v.Stable V := by
  induction vs with
  | nil => rw [StableItems]; exact ⟨fun _ ↦ List.forall_mem_nil _, fun _ ↦ trivial⟩
  | cons v vs ih => rw [StableItems, ih, List.forall_mem_cons]

/-- Fields stay if each that is null may be left out, and each other one stays. -/
theorem stableFields_iff {given : List (FieldRule × Accepted)} : StableFields V extras given ↔
    ∀ f ∈ given, (f.2.isNull = true → Omissible extras f.1) ∧
      (f.2.isNull = false → (V.toJson f.2).isNull = false ∧ f.2.Stable V) := by
  induction given with
  | nil => rw [StableFields]; exact ⟨fun _ ↦ List.forall_mem_nil _, fun _ ↦ trivial⟩
  | cons f rest ih => rw [StableFields, ih, List.forall_mem_cons, and_assoc]

end Accepted

/-- A value is accepted again when it was written down, with nothing else to write down. -/
def Again (V : Validator) (models : Table Model) (isArray : Bool) (content : Package.Content)
    (a : Accepted) : Prop :=
  ∃ b, V.check models (V.toJson a) isArray content = .ok b ∧ V.toJson b = V.toJson a

/-! ### Items -/

/-- Items are accepted again exactly if each of them is. -/
theorem exists_items_iff {vs : List Accepted} :
    (∃ ws : List Accepted,
      (vs.map fun v ↦ V.check models (V.toJson v) false content) = ws.map Except.ok ∧
      ws.map V.toJson = vs.map V.toJson) ↔ ∀ v ∈ vs, Again V models false content v := by
  induction vs with
  | nil => exact ⟨fun _ ↦ List.forall_mem_nil _, fun _ ↦ ⟨[], rfl, rfl⟩⟩
  | cons v vs ih =>
    rw [List.forall_mem_cons, ← ih]
    constructor
    · rintro ⟨ws, hchecks, hjson⟩
      cases ws with
      | nil => cases hchecks
      | cons w ws =>
        obtain ⟨hcheck, hchecks⟩ := List.cons.inj hchecks
        obtain ⟨heq, hjson⟩ := List.cons.inj hjson
        exact ⟨⟨w, hcheck, heq⟩, ws, hchecks, hjson⟩
    · rintro ⟨⟨w, hcheck, heq⟩, ws, hchecks, hjson⟩
      exact ⟨w :: ws, congrArg₂ List.cons hcheck hchecks, congrArg₂ List.cons heq hjson⟩

/-- An array is accepted again exactly if each of its items is. -/
theorem again_items_iff (hV : V.Checks) (hW : V.Writes) {vs : List Accepted} :
    Again V models true content (.items vs) ↔ ∀ v ∈ vs, Again V models false content v := by
  rw [← exists_items_iff, Again, hW.items]
  constructor
  · rintro ⟨b, hcheck, hjson⟩
    obtain ⟨items, ws, heq, rfl, hws⟩ := (hV.items models _ content b).1 hcheck
    obtain rfl := Json.arr.inj heq
    rw [List.map_map] at hws
    rw [hW.items] at hjson
    exact ⟨ws, hws, Json.arr.inj hjson⟩
  · rintro ⟨ws, hws, hjson⟩
    refine ⟨.items ws, (hV.items models _ content _).2 ⟨_, ws, rfl, rfl, ?_⟩, ?_⟩
    · rw [List.map_map]
      exact hws
    · rw [hW.items, hjson]

/-! ### Objects -/

/-- A field stays: it may be left out if it is null, else it is accepted again. -/
def Keeps (V : Validator) (models : Table Model) (extras : Entries Json) (rule : FieldRule)
    (a : Accepted) : Prop :=
  (a.isNull = true → Omissible extras rule) ∧
    (a.isNull = false → Again V models rule.isArray rule.content a)

/-- A field that stays comes out as before when the object was written down. -/
theorem exists_outcome_of_keeps (hV : V.Checks) (hm : m.Regular) (hrule : rule ∈ m.fields.values)
    (houtcome : V.FieldOutcome models data rule (outcome rule)) (hall : ShowsAll V m outcome data)
    (hkeeps : ∀ a, outcome rule = some a → Keeps V models (extrasOf m data) rule a) :
    ∃ o, V.FieldOutcome models (written V m outcome data) rule o ∧
      shown V o = shown V (outcome rule) ∧
      ∀ taken, memberOf? rule (written V m outcome data) = some taken → taken.1 = rule.key := by
  have habsent (hoptional : rule.isRequired = false) (hnone : shown V (outcome rule) = none)
      (hname : ∀ e ∈ extrasOf m data, e.1 = rule.name → e.2.isNull = true) :
      ∃ o, V.FieldOutcome models (written V m outcome data) rule o ∧
        shown V o = shown V (outcome rule) ∧
        ∀ taken, memberOf? rule (written V m outcome data) = some taken → taken.1 = rule.key := by
    have hmember : memberOf? rule (written V m outcome data) = none := by
      rw [memberOf?_written_of_none hm hrule hnone, get?_shownExtras_eq_none_iff.2 hname,
        Option.map_none]
    exact ⟨none, .absent hmember hoptional, hnone.symm, fun taken htaken ↦ by
      rw [hmember] at htaken
      cases htaken⟩
  cases hcase : outcome rule with
  | none =>
    rw [← hcase]
    rw [hcase] at houtcome
    cases houtcome with
    | absent hnone hoptional =>
      refine habsent hoptional (by rw [hcase]; rfl) fun e he hname ↦ ?_
      refine absurd ?_ (memberOf?_eq_none_iff.1 hnone).2
      exact hname ▸ List.mem_map_of_mem (mem_extrasOf_iff.1 he).1
  | some a =>
    obtain ⟨hnull, hagain⟩ := hkeeps a hcase
    rw [← hcase]
    cases hgiven : a.isNull with
    | true =>
      obtain ⟨hoptional, hname⟩ := hnull hgiven
      exact habsent hoptional (by rw [hcase, shown_of_null hgiven]) hname
    | false =>
      obtain ⟨b, hcheck, hjson⟩ := hagain hgiven
      have hmember : memberOf? rule (written V m outcome data) = some (rule.key, V.toJson a) :=
        memberOf?_written_of_given hm hrule hcase hgiven
      have hshows : (V.toJson a).isNull = false := hall.fields rule hrule a hcase hgiven
      refine ⟨some b, .value rule.key _ b hmember (fun hnull ↦ ?_) hcheck, ?_,
        fun taken htaken ↦ ?_⟩
      · rw [hshows] at hnull
        cases hnull
      · rw [hcase, shown_of_given hgiven,
          shown_of_given ((hV.isNull_eq hcheck).trans hshows), hjson]
      · rw [hmember] at htaken
        cases htaken
        rfl

/-- An object whose fields stay comes out as before when it was written down. -/
theorem exists_checkModel_of_keeps (hV : V.Checks) (hW : V.Writes) (hm : m.Regular)
    (houtcome : ∀ r ∈ m.fields.values, V.FieldOutcome models data r (outcome r))
    (hclosed : m.isOpen = true ∨ extrasOf m data = []) (hall : ShowsAll V m outcome data)
    (hkeeps : ∀ r ∈ m.fields.values, ∀ a, outcome r = some a →
      Keeps V models (extrasOf m data) r a) :
    ∃ b, V.checkModel models m (.obj (written V m outcome data)) = .ok b ∧
      V.toJson b = .obj (written V m outcome data) := by
  choose! o ho hshown htaken using fun r hr ↦
    exists_outcome_of_keeps hV hm hr (houtcome r hr) hall (hkeeps r hr)
  have hextras := extrasOf_written htaken
  refine ⟨_, (hV.model models m _ _).2 ⟨_, o, rfl, ho, hclosed.imp_right fun hnil ↦ ?_, rfl⟩, ?_⟩
  · rw [hextras, hnil]
    rfl
  · have hfields : shownFields V m.fields.values o = shownFields V m.fields.values outcome :=
      List.filterMap_congr fun r hr ↦ by rw [hshown r hr]
    rw [toJson_model hW, written, hextras, hall.shownExtras_eq hW, hfields]
    rfl

section Again

variable {o : FieldRule → Option Accepted}

/-- Where the same is written down of a payload again, the same is of each field. -/
theorem shown_eq_of_written_eq (hm : m.Regular)
    (hsame : written V m o (written V m outcome data) = written V m outcome data)
    (hrule : rule ∈ m.fields.values) : shown V (o rule) = shown V (outcome rule) := by
  have hkey : Entries.get? (written V m o (written V m outcome data)) rule.key = shown V (o rule) :=
    get?_written_key hm hrule
  rw [hsame, get?_written_key hm hrule] at hkey
  exact hkey.symm

/-- Where the same is written down a second time, nothing but null became null the first time: a
null that was written down would be left out. -/
theorem showsAll_of_written_eq (hV : V.Checks) (hW : V.Writes) (hm : m.Regular)
    (ho : ∀ r ∈ m.fields.values, V.FieldOutcome models (written V m outcome data) r (o r))
    (hsame : written V m o (written V m outcome data) = written V m outcome data) :
    ShowsAll V m outcome data where
  fields r hr a ha hgiven := by
    have hmember : memberOf? r (written V m outcome data) = some (r.key, V.toJson a) :=
      memberOf?_written_of_given hm hr ha hgiven
    have hshown : shown V (o r) = some (V.toJson a) := by
      rw [shown_eq_of_written_eq hm hsame hr, ha, shown_of_given hgiven]
    have hout := ho r hr
    generalize o r = out at hshown hout
    cases hout with
    | absent => cases hshown
    | null => cases hshown
    | value key w c hvalue hrequired hcheck =>
      rw [hmember] at hvalue
      cases hvalue
      rw [← hV.isNull_eq hcheck]
      cases hnull : c.isNull with
      | true => rw [shown_of_null hnull] at hshown; cases hshown
      | false => rfl
  extras e he hgiven := by
    have hne : ∀ r ∈ m.fields.values, r.key ≠ e.1 := fun r hr heq ↦
      key_not_mem_extrasOf hr (List.mem_map.2 ⟨e, he, heq.symm⟩)
    -- what is left over of a name that is no attribute of a field is left over again
    have hleft {n : String} {v : Json} {outcome : FieldRule → Option Accepted} {data : Payload}
        (hn : ∀ r ∈ m.fields.values, r.key ≠ n) (h : (n, v) ∈ written V m outcome data) :
        (n, v) ∈ shownExtras V (extrasOf m data) :=
      (List.mem_append.1 h).resolve_left fun h ↦ by
        obtain ⟨r, hr, hkey, -⟩ := mem_shownFields.1 h
        exact hn r hr hkey
    have hfirst : (e.1, V.toJson (.scalar .unknown e.2)) ∈ written V m outcome data :=
      List.mem_append_right _ (mem_shownExtras.2 ⟨e.2, he, hgiven, rfl⟩)
    rw [← hsame] at hfirst
    obtain ⟨w, hw, hwgiven, hwritten⟩ := mem_shownExtras.1 (hleft hne hfirst)
    obtain ⟨u, -, -, rfl⟩ := mem_shownExtras.1 (hleft hne (mem_extrasOf_iff.1 hw).1)
    rwa [← hwritten, hW.toJson_scalar_idem]

/-- In an object that comes out as before when it was written down, each field stays. -/
theorem keeps_of_written_eq (hV : V.Checks) (hm : m.Regular)
    (ho : ∀ r ∈ m.fields.values, V.FieldOutcome models (written V m outcome data) r (o r))
    (hall : ShowsAll V m outcome data)
    (hsame : written V m o (written V m outcome data) = written V m outcome data)
    (hrule : rule ∈ m.fields.values) (ha : outcome rule = some a) :
    Keeps V models (extrasOf m data) rule a := by
  have hshown := shown_eq_of_written_eq hm hsame hrule
  have hout := ho rule hrule
  constructor
  · intro hnull
    have hnone : shown V (outcome rule) = none := by rw [ha, shown_of_null hnull]
    generalize o rule = out at hshown hout
    cases hout with
    | absent hmember hoptional =>
      rw [memberOf?_written_of_none hm hrule hnone, Option.map_eq_none_iff] at hmember
      exact ⟨hoptional, get?_shownExtras_eq_none_iff.1 hmember⟩
    | null key hmember hoptional =>
      cases hall.given (Entries.mem_of_get? (get?_of_memberOf? hmember))
    | value key v c hmember hgiven hcheck =>
      have hv := hall.given (Entries.mem_of_get? (get?_of_memberOf? hmember))
      rw [hnone, shown_of_given ((hV.isNull_eq hcheck).trans hv)] at hshown
      cases hshown
  · intro hgiven
    have hmember : memberOf? rule (written V m outcome data) = some (rule.key, V.toJson a) :=
      memberOf?_written_of_given hm hrule ha hgiven
    rw [ha, shown_of_given hgiven] at hshown
    generalize o rule = out at hshown hout
    cases hout with
    | absent => cases hshown
    | null => cases hshown
    | value key v c hvalue hrequired hcheck =>
      rw [hmember] at hvalue
      obtain ⟨-, rfl⟩ := Prod.mk.inj (Option.some.inj hvalue)
      have hshows := hall.fields rule hrule a ha hgiven
      rw [shown_of_given ((hV.isNull_eq hcheck).trans hshows)] at hshown
      exact ⟨c, hcheck, Option.some.inj hshown⟩

end Again

/-- An accepted object stays exactly if nothing but null becomes null and each of its fields
stays. -/
theorem stable_model_iff : (Accepted.model (Validator.givenFields m outcome)
    (extrasOf m data)).Stable V ↔ ShowsAll V m outcome data ∧
      ∀ r ∈ m.fields.values, ∀ a, outcome r = some a →
        (a.isNull = true → Omissible (extrasOf m data) r) ∧ (a.isNull = false → a.Stable V) := by
  have hmem {r : FieldRule} {a : Accepted} (hr : r ∈ m.fields.values) (ha : outcome r = some a) :
      (r, a) ∈ Validator.givenFields m outcome :=
    List.mem_filterMap.2 ⟨r, hr, by rw [ha]; rfl⟩
  rw [Accepted.Stable, Accepted.stableFields_iff]
  constructor
  · rintro ⟨hfields, hextras⟩
    exact ⟨⟨fun r hr a ha hgiven ↦ ((hfields _ (hmem hr ha)).2 hgiven).1, hextras⟩,
      fun r hr a ha ↦ (hfields _ (hmem hr ha)).imp_right fun h hgiven ↦ (h hgiven).2⟩
  · rintro ⟨hall, hfields⟩
    refine ⟨fun f hf ↦ ?_, hall.extras⟩
    obtain ⟨r, hr, hgiven⟩ := List.mem_filterMap.1 hf
    obtain ⟨a, ha, rfl⟩ := Option.map_eq_some_iff.1 hgiven
    exact (hfields r hr a ha).imp_right fun h hnot ↦ ⟨hall.fields r hr a ha hnot, h hnot⟩

/-- An accepted object comes out as before when it was written down exactly if it stays, provided
that this holds of its parts. -/
theorem exists_checkModel_iff (hV : V.Checks) (hW : V.Writes) (hm : m.Regular)
    (houtcome : ∀ r ∈ m.fields.values, V.FieldOutcome models data r (outcome r))
    (hclosed : m.isOpen = true ∨ extrasOf m data = [])
    (hagain : ∀ key w, (key, w) ∈ data → ∀ isArray content c,
      V.check models w isArray content = .ok c → (Again V models isArray content c ↔ c.Stable V)) :
    (∃ b, V.checkModel models m (.obj (written V m outcome data)) = .ok b ∧
      V.toJson b = .obj (written V m outcome data)) ↔
      (Accepted.model (Validator.givenFields m outcome) (extrasOf m data)).Stable V := by
  have hfield (r : FieldRule) (hr : r ∈ m.fields.values) (c : Accepted) (hc : outcome r = some c)
      (hgiven : c.isNull = false) : Again V models r.isArray r.content c ↔ c.Stable V := by
    have hout := houtcome r hr
    rw [hc] at hout
    cases hout with
    | null => cases hgiven
    | value key w c hmember hrequired hcheck =>
      exact hagain key w (Entries.mem_of_get? (get?_of_memberOf? hmember)) _ _ _ hcheck
  rw [stable_model_iff]
  constructor
  · rintro ⟨b, hb, hjson⟩
    obtain ⟨_, o, heq, ho, -, rfl⟩ := hV.exists_obj hb
    obtain rfl := Json.obj.inj heq
    have hsame := Json.obj.inj ((toJson_model hW m o _).symm.trans hjson)
    have hall := showsAll_of_written_eq hV hW hm ho hsame
    refine ⟨hall, fun r hr c hc ↦ ?_⟩
    obtain ⟨hnull, hkept⟩ := keeps_of_written_eq hV hm ho hall hsame hr hc
    exact ⟨hnull, fun hgiven ↦ (hfield r hr c hc hgiven).1 (hkept hgiven)⟩
  · rintro ⟨hall, hstable⟩
    refine exists_checkModel_of_keeps hV hW hm houtcome hclosed hall fun r hr c hc ↦ ?_
    obtain ⟨hnull, hkept⟩ := hstable r hr c hc
    exact ⟨hnull, fun hgiven ↦ (hfield r hr c hc hgiven).2 (hkept hgiven)⟩

/-! ### All values -/

/-- A value is accepted again as it was written down exactly if it stays. -/
theorem again_iff (hV : V.Checks) (hW : V.Writes) (hmodels : models.All Model.Regular) (v : Json) :
    ∀ {isArray : Bool} {content : Package.Content} {a : Accepted},
      V.check models v isArray content = .ok a →
      (Again V models isArray content a ↔ a.Stable V) := by
  -- the parts of a value are smaller than it
  induction v using (measure (sizeOf : Json → Nat)).wf.induction with
  | _ v ih =>
  intro isArray content a hcheck
  cases hV.outcome hcheck with
  | items items content vs hitems =>
    rw [again_items_iff hV hW, Accepted.Stable, Accepted.stableItems_iff]
    refine forall₂_congr fun w hw ↦ ?_
    have hmem : Except.ok w ∈ items.map fun v ↦ V.check models v false content :=
      hitems ▸ List.mem_map_of_mem hw
    obtain ⟨item, hitem, hok⟩ := List.mem_map.1 hmem
    exact ih item (Json.sizeOf_lt_arr hitem) hok
  | object members object m a hmodel hmembers =>
    obtain ⟨_, outcome, heq, houtcome, hclosed, rfl⟩ := hV.exists_obj hmembers
    obtain rfl := Json.obj.inj heq
    rw [← exists_checkModel_iff hV hW (hmodels object m hmodel) houtcome hclosed
      fun key w hw _ _ _ ↦ ih w (Json.sizeOf_lt_obj hw), Again, toJson_model hW]
    refine exists_congr fun b ↦ and_congr_left fun _ ↦ (hV.reference _ _ _ _).trans ⟨?_, ?_⟩
    · rintro ⟨_, hsame, hb⟩
      obtain rfl := Option.some.inj (hmodel.symm.trans hsame)
      exact hb
    · exact fun hb ↦ ⟨m, hmodel, hb⟩
  | number v numbers k hmem hvalue =>
    rw [Accepted.Stable, iff_true, Again, hW.number]
    exact ⟨.number k, hV.number models numbers k hmem, hW.number k⟩
  | loose v type htype =>
    rw [Accepted.Stable, Again]
    exact iff_of_true ⟨_, hV.loose models type _ htype, hW.toJson_scalar_idem type v⟩ (.inl htype)
  | strict v type hvalue hsame =>
    have hjson : V.toJson (.scalar type v) = v := by
      obtain ⟨text, rfl⟩ | ⟨n, rfl⟩ | ⟨b, rfl⟩ := hvalue
      · exact hW.scalar_str type text
      · exact hW.scalar_int type n
      · exact hW.scalar_bool type b
    rw [Accepted.Stable, Again, hjson]
    exact iff_of_true ⟨_, hsame, hjson⟩ (.inr hvalue.isNull)
  | double v x hvalue =>
    rw [Accepted.Stable, Again]
    rcases hW.scalar_float .double x with hjson | ⟨-, hjson⟩
    · rw [hjson]
      exact iff_of_true ⟨_, hV.double models x, hjson⟩ (.inr rfl)
    · -- null is no double
      rw [hjson]
      refine iff_of_false ?_ (by simp [ScalarType.takesAny, Json.isNull])
      rintro ⟨b, hb, -⟩
      obtain ⟨y, -, hnull | ⟨n, hnull, -⟩⟩ := hV.double_only models _ _ hb
      · cases hnull
      · cases hnull

/-- What a model accepts is accepted again as it was written down exactly if it stays. -/
theorem checkModel_again_iff (hV : V.Checks) (hW : V.Writes) (hmodels : models.All Model.Regular)
    (hm : m.Regular) (houtcome : ∀ r ∈ m.fields.values, V.FieldOutcome models data r (outcome r))
    (hclosed : m.isOpen = true ∨ extrasOf m data = []) :
    (∃ b, V.checkModel models m (.obj (written V m outcome data)) = .ok b ∧
      V.toJson b = .obj (written V m outcome data)) ↔
      (Accepted.model (Validator.givenFields m outcome) (extrasOf m data)).Stable V :=
  exists_checkModel_iff hV hW hm houtcome hclosed fun _ w _ _ _ _ ↦ again_iff hV hW hmodels w

end EventSchema.Payload
