import EventSchema.Proofs.Payload.Members
import EventSchema.Proofs.Payload.Validation

/-!
# The validator of the library

The validator of the library keeps to the rules that are asked of any (`Payload.checks_validator`,
`Payload.writes_validator`). Whatever is refused has some problem, so a check without problems has
accepted every part: an array is accepted if its items are (`gatherItems_ok_iff`), and an object if
each field of the model comes out well and no member is left over in a closed model
(`checkPayload_ok_iff`).
-/

namespace EventSchema

namespace Json

theorem finiteItems_eq (items : List Json) : finiteItems items = items.map finite := by
  induction items with
  | nil => rw [finiteItems, List.map_nil]
  | cons v vs ih => rw [finiteItems, ih, List.map_cons]

theorem finiteMembers_eq (members : List (String × Json)) :
    finiteMembers members = members.map fun e ↦ (e.1, e.2.finite) := by
  induction members with
  | nil => rw [finiteMembers, List.map_nil]
  | cons e rest ih => rw [finiteMembers, ih, List.map_cons]

end Json

namespace Payload

variable {models : Table Model} {m : Model} {data : Payload} {rule : FieldRule} {v : Json}
  {a : Accepted} {content : Package.Content} {numbers : List Int} {key : String}

/-! ### Problems -/

/-- Items that fail have problems. -/
theorem gatherItems_ne_nil {outcomes : List Checked} : gatherItems outcomes ≠ .error [] := by
  unfold gatherItems
  dsimp only
  split
  · exact nofun
  · next hnot => exact fun h ↦ hnot (Except.error.inj h)

/-- An object that fails has problems. -/
theorem checkObject_ne_nil {checks : Entries Check} : checkObject m checks data ≠ .error [] := by
  unfold checkObject
  dsimp only
  split
  · exact nofun
  · next hnot => exact fun h ↦ hnot (Except.error.inj h)

/-- A scalar that fails has a problem. -/
theorem checkScalar_ne_nil {type : ScalarType} : checkScalar type v ≠ .error [] := by
  unfold checkScalar
  split
  case h_8 => split <;> exact nofun
  all_goals exact nofun

/-- A number that fails has a problem. -/
theorem checkNumber_ne_nil : checkNumber numbers v ≠ .error [] := by
  unfold checkNumber
  split
  · split <;> exact nofun
  · exact nofun

/-- A value that is refused has some problem. -/
theorem check_ne_nil (models : Table Model) (v : Json) (isArray : Bool)
    (content : Package.Content) : check models v isArray content ≠ .error [] := by
  unfold check
  split
  · exact gatherItems_ne_nil
  · exact nofun
  · split
    · exact checkObject_ne_nil
    · exact nofun
  · exact nofun
  · exact checkNumber_ne_nil
  · exact checkScalar_ne_nil

/-- There are no problems if everything was accepted. -/
theorem problemsOf_eq_nil_iff {α : Type} {outcomes : List (Except (List Problem) α)}
    (h : ∀ r ∈ outcomes, r ≠ .error []) :
    problemsOf outcomes = [] ↔ ∀ r ∈ outcomes, ∃ x, r = .ok x := by
  rw [problemsOf, List.flatMap_eq_nil_iff]
  refine forall₂_congr fun r hr ↦ ?_
  cases r with
  | ok x => exact ⟨fun _ ↦ ⟨x, rfl⟩, fun _ ↦ rfl⟩
  | error ps => exact ⟨fun hps ↦ absurd (congrArg Except.error hps) (h _ hr), nofun⟩

/-! ### Items -/

/-- Items are checked one by one. -/
theorem checkItems_eq (models : Table Model) (items : List Json) (content : Package.Content) :
    checkItems models items content = items.map fun v ↦ check models v false content := by
  induction items with
  | nil => rw [checkItems, List.map_nil]
  | cons v vs ih => rw [checkItems, ih, List.map_cons]

/-- Items with their places have no problems if each of them was accepted. -/
theorem problemsOf_placed_eq_nil_iff {outcomes : List Checked} (h : ∀ r ∈ outcomes, r ≠ .error []) :
    problemsOf (((List.range outcomes.length).zip outcomes).map fun o ↦
      o.2.mapError (List.map (Problem.below (.index o.1)))) = [] ↔
      ∀ r ∈ outcomes, ∃ x, r = .ok x := by
  have hsnd : ((List.range outcomes.length).zip outcomes).map Prod.snd = outcomes :=
    List.map_snd_zip (Nat.le_of_eq List.length_range.symm)
  rw [problemsOf_eq_nil_iff, List.forall_mem_map]
  · conv_rhs => rw [← hsnd, List.forall_mem_map]
    refine forall₂_congr fun o _ ↦ ?_
    cases o.2 with
    | ok x => exact ⟨fun _ ↦ ⟨x, rfl⟩, fun _ ↦ ⟨x, rfl⟩⟩
    | error ps => exact ⟨nofun, nofun⟩
  · rw [List.forall_mem_map]
    intro o ho herror
    have hmem : o.2 ∈ outcomes := hsnd ▸ List.mem_map_of_mem ho
    cases hr : o.2 with
    | ok x => rw [hr] at herror; cases herror
    | error ps =>
      rw [hr] at herror
      have hnil := List.map_eq_nil_iff.1 (Except.error.inj herror)
      exact h _ hmem (hr.trans (congrArg Except.error hnil))

/-- Items are accepted if each of them is. -/
theorem gatherItems_ok_iff {outcomes : List Checked} (h : ∀ r ∈ outcomes, r ≠ .error []) :
    gatherItems outcomes = .ok a ↔ ∃ vs, outcomes = vs.map Except.ok ∧ a = .items vs := by
  have hplaced := problemsOf_placed_eq_nil_iff h
  unfold gatherItems
  dsimp only
  split
  · next hnone =>
    have hall := hplaced.1 hnone
    constructor
    · rintro heq
      exact ⟨_, eq_map_ok hall, (Except.ok.inj heq).symm⟩
    · rintro ⟨vs, rfl, rfl⟩
      rw [List.filterMap_map]
      exact congrArg (Except.ok ∘ Accepted.items) List.filterMap_some
  · next hsome =>
    refine ⟨nofun, ?_⟩
    rintro ⟨vs, rfl, -⟩
    refine absurd (hplaced.2 fun r hr ↦ ?_) hsome
    obtain ⟨v, -, rfl⟩ := List.mem_map.1 hr
    exact ⟨v, rfl⟩

/-! ### Fields -/

/-- The check of a member is that of its value. -/
theorem get?_checkMembers (models : Table Model) (data : Payload) (key : String) :
    (checkMembers models data).get? key = (Entries.get? data key).map (check models) := by
  induction data with
  | nil => rw [checkMembers]; rfl
  | cons member rest ih =>
    obtain ⟨n, v⟩ := member
    rw [checkMembers, Entries.get?_cons, Entries.get?_cons, ih]
    split <;> rfl

/-- A field that comes out well is accepted. -/
theorem checkField_of_outcome {outcome : Option Accepted}
    (h : validator.FieldOutcome models data rule outcome) :
    checkField (checkMembers models data) data rule = .ok outcome := by
  unfold checkField
  cases h with
  | absent hnone hoptional => rw [hnone, hoptional]; rfl
  | null key hmember hoptional => rw [hmember, hoptional]; rfl
  | value key v a hmember hgiven hcheck =>
    have hnull : (v.isNull && !rule.isRequired) = false := by
      cases hv : v.isNull with
      | true => rw [hgiven hv]; rfl
      | false => rfl
    replace hcheck : check models v rule.isArray rule.content = .ok a := hcheck
    rw [hmember]
    dsimp only
    rw [hnull, get?_checkMembers, get?_of_memberOf? hmember, Option.map_some]
    dsimp only
    rw [hcheck]
    rfl

/-- A field that is accepted comes out well. -/
theorem outcome_of_checkField {outcome : Option Accepted}
    (h : checkField (checkMembers models data) data rule = .ok outcome) :
    validator.FieldOutcome models data rule outcome := by
  unfold checkField at h
  split at h
  · next hnone =>
    split at h
    · cases h
    · next hoptional =>
      cases h
      exact .absent hnone (Bool.eq_false_iff.2 hoptional)
  · next key v hmember =>
    split at h
    · next hnull =>
      obtain ⟨hv, hrequired⟩ := Bool.and_eq_true_iff.1 hnull
      cases h
      cases v with
      | null => exact .null key hmember ((Bool.not_eq_true' _).mp hrequired)
      | _ => cases hv
    · next hgiven =>
      rw [get?_checkMembers, get?_of_memberOf? hmember, Option.map_some] at h
      dsimp only at h
      split at h
      · next a hcheck =>
        cases h
        refine .value key v a hmember (fun hv ↦ ?_) hcheck
        by_contra hrequired
        exact hgiven (by rw [hv, Bool.eq_false_iff.2 hrequired]; rfl)
      · cases h

/-- A field that fails has problems. -/
theorem checkField_ne_nil : checkField (checkMembers models data) data rule ≠ .error [] := by
  unfold checkField
  split
  · split
    · exact nofun
    · exact nofun
  · next key v hmember =>
    split
    · exact nofun
    · rw [get?_checkMembers, get?_of_memberOf? hmember, Option.map_some]
      dsimp only
      split
      · exact nofun
      · next ps hcheck =>
        intro hnil
        refine check_ne_nil models v rule.isArray rule.content (hcheck.trans ?_)
        rw [List.map_eq_nil_iff.1 (Except.error.inj hnil)]

/-! ### Objects -/

/-- Members that are no fields are no problem exactly if the model is open or there are none. -/
theorem extraProblems_eq_nil_iff :
    extraProblems m data = [] ↔ m.isOpen = true ∨ extrasOf m data = [] := by
  rw [extraProblems]
  cases m.isOpen with
  | true => exact ⟨fun _ ↦ .inl rfl, fun _ ↦ rfl⟩
  | false =>
    rw [if_neg Bool.false_ne_true, List.map_eq_nil_iff]
    exact ⟨.inr, fun h ↦ h.resolve_left Bool.false_ne_true⟩

/-- What is accepted without a problem is what the fields come to. -/
theorem checkPayload_of_fields {outcome : FieldRule → Option Accepted}
    (houtcome : ∀ r ∈ m.fields.values,
      checkField (checkMembers models data) data r = .ok (outcome r))
    (hextras : extraProblems m data = []) : checkPayload models m data =
      .ok (.model (Validator.givenFields m outcome) (extrasOf m data)) := by
  have hfields : problemsOf ((m.fields.values.map fun r ↦
      (r, checkField (checkMembers models data) data r)).map Prod.snd) = [] := by
    rw [problemsOf_eq_nil_iff, List.map_map, List.forall_mem_map]
    · exact fun r hr ↦ ⟨_, houtcome r hr⟩
    · rw [List.map_map, List.forall_mem_map]
      exact fun r _ ↦ checkField_ne_nil
  rw [checkPayload, checkObject, hfields, hextras, List.filterMap_map]
  refine congrArg (fun given ↦ Except.ok (Accepted.model given (extrasOf m data)))
    (List.filterMap_congr fun r hr ↦ ?_)
  rw [Function.comp, houtcome r hr]
  cases outcome r <;> rfl

/-- A payload is accepted if each field comes out well and, in a closed model, no member is left
over. -/
theorem checkPayload_ok_iff : checkPayload models m data = .ok a ↔
    ∃ outcome : FieldRule → Option Accepted,
      (∀ r ∈ m.fields.values, validator.FieldOutcome models data r (outcome r)) ∧
      (m.isOpen = true ∨ extrasOf m data = []) ∧
      a = .model (Validator.givenFields m outcome) (extrasOf m data) := by
  constructor
  · intro hok
    have hnone : problemsOf ((m.fields.values.map fun r ↦
        (r, checkField (checkMembers models data) data r)).map Prod.snd) ++
        extraProblems m data = [] := by
      rw [checkPayload, checkObject] at hok
      split at hok
      · next hnone => exact hnone
      · cases hok
    obtain ⟨hfields, hextras⟩ := List.append_eq_nil_iff.1 hnone
    rw [problemsOf_eq_nil_iff, List.map_map, List.forall_mem_map] at hfields
    · choose! outcome houtcome using hfields
      refine ⟨outcome, fun r hr ↦ outcome_of_checkField (houtcome r hr),
        extraProblems_eq_nil_iff.1 hextras, ?_⟩
      exact Except.ok.inj (hok.symm.trans (checkPayload_of_fields houtcome hextras))
    · rw [List.map_map, List.forall_mem_map]
      exact fun r _ ↦ checkField_ne_nil
  · rintro ⟨outcome, houtcome, hclosed, rfl⟩
    exact checkPayload_of_fields (fun r hr ↦ checkField_of_outcome (houtcome r hr))
      (extraProblems_eq_nil_iff.2 hclosed)

/-- A closed model refuses a payload with a member that no field takes. -/
theorem checkObject_error_of_extra (hclosed : m.isOpen = false) {checks : Entries Check}
    {member : String × Json} (hmember : member ∈ extrasOf m data) :
    ∃ ps, checkObject m checks data = .error ps ∧ ⟨[.key member.1], .unknownMember⟩ ∈ ps := by
  have hproblem : (⟨[.key member.1], .unknownMember⟩ : Problem) ∈ extraProblems m data := by
    rw [extraProblems, hclosed]
    exact List.mem_map.2 ⟨member, hmember, rfl⟩
  unfold checkObject
  dsimp only
  split
  · next hnone =>
    rw [(List.append_eq_nil_iff.1 hnone).2] at hproblem
    cases hproblem
  · exact ⟨_, rfl, List.mem_append_right _ hproblem⟩

/-! ### Values -/

theorem check_numbers (models : Table Model) (v : Json) (numbers : List Int) :
    check models v false (.numbers numbers) = checkNumber numbers v := by
  cases v <;> rw [check]

theorem check_scalar (models : Table Model) (v : Json) (type : ScalarType) :
    check models v false (.scalar type) = checkScalar type v := by
  cases v <;> rw [check]

/-- An array is accepted exactly if each of its items is. -/
theorem check_array_ok_iff : check models v true content = .ok a ↔ ∃ items vs, v = .arr items ∧
    a = .items vs ∧ (items.map fun item ↦ check models item false content) = vs.map Except.ok := by
  cases v with
  | arr items =>
    rw [check, checkItems_eq,
      gatherItems_ok_iff (List.forall_mem_map.2 fun v _ ↦ check_ne_nil models v _ _)]
    constructor
    · rintro ⟨vs, hvs, ha⟩
      exact ⟨items, vs, rfl, ha, hvs⟩
    · rintro ⟨_, vs, heq, ha, hvs⟩
      cases heq
      exact ⟨vs, hvs, ha⟩
  | _ =>
    rw [check]
    · exact ⟨nofun, nofun⟩
    · exact nofun

/-- A reference is accepted exactly if the model of its object accepts the value. -/
theorem check_reference_ok_iff {object : String} :
    check models v false (.reference object) = .ok a ↔
      ∃ m, models.get? object = some m ∧ m.check models v = .ok a := by
  cases v with
  | obj members =>
    rw [check]
    cases models.get? object with
    | none => exact ⟨nofun, nofun⟩
    | some m =>
      refine ⟨fun h ↦ ⟨m, rfl, h⟩, ?_⟩
      rintro ⟨_, heq, h⟩
      cases heq
      exact h
  | _ =>
    rw [check]
    · exact ⟨nofun, nofun⟩
    · exact nofun

/-- A number that is accepted as a fraction is a fraction or an integer that is not too large. -/
theorem checkScalar_double_ok (h : checkScalar .double v = .ok a) :
    ∃ x, a = .scalar .double (.float x) ∧ (v = .float x ∨ ∃ n, v = .int n ∧ x.isFinite = true) := by
  cases v with
  | float x => exact ⟨x, (Except.ok.inj h).symm, .inl rfl⟩
  | int n =>
    rw [checkScalar] at h
    cases hx : doubleOf? n with
    | none => rw [hx] at h; cases h
    | some x =>
      rw [hx] at h
      refine ⟨x, (Except.ok.inj h).symm, .inr ⟨n, rfl, ?_⟩⟩
      rw [doubleOf?] at hx
      split at hx
      · next hfinite => rwa [← Option.some.inj hx]
      · cases hx
  | _ => cases h

/-- A number that is accepted is in the list, and was given as such or loosely. -/
theorem checkNumber_ok (h : checkNumber numbers v = .ok a) :
    ∃ k ∈ numbers, a = .number k ∧ (v = .int k ∨ v.isLoose = true) := by
  rw [checkNumber] at h
  split at h
  · next k hk =>
    split at h
    · next hmem =>
      refine ⟨k, List.contains_iff_mem.1 hmem, (Except.ok.inj h).symm, ?_⟩
      cases v with
      | int n => exact .inl (congrArg Json.int (Option.some.inj hk))
      | bool b => exact .inr rfl
      | float x => exact .inr rfl
      | _ => cases hk
    · cases h
  · cases h

/-- The validator checks values by the rules. -/
theorem checks_validator : validator.Checks where
  loose models type v htype := by
    refine (check_scalar models v type).trans ?_
    cases type with
    | json => rw [checkScalar]
    | unknown => rw [checkScalar]
    | _ => cases htype
  text models v a := by
    refine (congrArg (· = _) (check_scalar models v .text)).to_iff.trans ?_
    cases v <;> simp [checkScalar, eq_comm]
  integer models v a := by
    refine (congrArg (· = _) (check_scalar models v .integer)).to_iff.trans ?_
    cases v <;> simp [checkScalar, eq_comm]
  boolean models v a := by
    refine (congrArg (· = _) (check_scalar models v .boolean)).to_iff.trans ?_
    cases v <;> simp [checkScalar, eq_comm]
  double models x := check_scalar models (.float x) .double
  double_only models v a h := checkScalar_double_ok ((check_scalar models v .double).symm.trans h)
  number models numbers k hk := by
    refine (check_numbers models (.int k) numbers).trans ?_
    rw [checkNumber, integerValue?]
    exact if_pos (List.contains_iff_mem.2 hk)
  number_only models numbers v a h := checkNumber_ok ((check_numbers models v numbers).symm.trans h)
  items _ _ _ _ := check_array_ok_iff
  reference _ _ _ _ := check_reference_ok_iff
  model models m v a := by
    cases v with
    | obj data =>
      refine checkPayload_ok_iff.trans ⟨?_, ?_⟩
      · rintro ⟨outcome, h⟩
        exact ⟨data, outcome, rfl, h⟩
      · rintro ⟨_, outcome, heq, h⟩
        cases heq
        exact ⟨outcome, h⟩
    | _ => exact ⟨nofun, fun ⟨_, _, heq, _⟩ ↦ nomatch heq⟩
  unknown _ _ _ hclosed _ hmember := checkObject_error_of_extra hclosed hmember

/-! ### Writing down -/

/-- Items are written down one by one. -/
theorem Accepted.toJsonItems_eq (vs : List Accepted) : toJsonItems vs = vs.map toJson := by
  induction vs with
  | nil => rw [toJsonItems, List.map_nil]
  | cons v vs ih => rw [toJsonItems, ih, List.map_cons]

/-- Fields are written down one by one, those without a value left out. -/
theorem Accepted.toJsonFields_eq (given : List (FieldRule × Accepted)) : toJsonFields given =
    (given.filter fun f ↦ !f.2.isNull).map fun f ↦ (f.1.key, f.2.toJson) := by
  induction given with
  | nil => rw [toJsonFields]; rfl
  | cons f rest ih =>
    rw [toJsonFields, ih, List.filter_cons]
    cases f.2.isNull <;> rfl

theorem Accepted.toJson_scalar (type : ScalarType) (v : Json) :
    (Accepted.scalar type v).toJson = if type = .unknown then v.finite else v := by
  cases type <;> rfl

/-- The validator writes accepted values down by the rules. -/
theorem writes_validator : validator.Writes where
  number _ := rfl
  items vs := congrArg Json.arr (Accepted.toJsonItems_eq vs)
  model given extras := by
    refine congrArg Json.obj (congrArg (· ++ _) (Accepted.toJsonFields_eq given))
  scalar_null type := by cases type <;> rfl
  scalar_bool type b := by cases type <;> rfl
  scalar_int type n := by cases type <;> rfl
  scalar_str type text := by cases type <;> rfl
  scalar_float type x := by
    change (Accepted.scalar type (.float x)).toJson = _ ∨
      _ ∧ (Accepted.scalar type (.float x)).toJson = _
    simp only [Accepted.toJson_scalar, Json.finite]
    cases x.isFinite <;> split <;> simp
  scalar_arr type items := by
    change (Accepted.scalar type (.arr items)).toJson =
      .arr (items.map fun v ↦ (Accepted.scalar type v).toJson)
    simp only [Accepted.toJson_scalar, Json.finite, Json.finiteItems_eq]
    split <;> simp
  scalar_obj type members := by
    change (Accepted.scalar type (.obj members)).toJson =
      .obj (members.map fun e ↦ (e.1, (Accepted.scalar type e.2).toJson))
    simp only [Accepted.toJson_scalar, Json.finite, Json.finiteMembers_eq]
    split <;> simp

end Payload

end EventSchema
