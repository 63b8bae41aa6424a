import EventSchema.Payload.Check

/-!
# What validators promise

The library leaves the checking of payloads and the writing down of accepted values to a
`Validator`. What is said of models holds for every validator that keeps to two sets of rules. By
`Validator.Checks`, a field that must be given must be given, one that need not be may be null, a
field of any values takes null too, all other types are strict, and a closed model takes no other
members. By `Validator.Writes`, fields go by the names of their attributes, what is null is left
out, and everything else is written down as it is, up to doubles that are infinite or no numbers,
which may become null.

What is accepted of a value then follows from the content of its field (`Validator.Checks.outcome`).
-/

namespace EventSchema

/-- A value that some checks take for an integer although it is none: a truth value or a double. -/
def Json.isLoose : Json → Bool
  | .bool _ => true
  | .float _ => true
  | _ => false

namespace Json

theorem sizeOf_lt_arr {v : Json} {items : List Json} (h : v ∈ items) :
    sizeOf v < sizeOf (Json.arr items) := by
  have hsize := List.sizeOf_lt_of_mem h
  rw [Json.arr.sizeOf_spec]
  omega

theorem sizeOf_lt_obj {e : String × Json} {members : List (String × Json)} (h : e ∈ members) :
    sizeOf e.2 < sizeOf (Json.obj members) := by
  have hsize := List.sizeOf_lt_of_mem h
  have hpart : sizeOf e = 1 + sizeOf e.1 + sizeOf e.2 := Prod.mk.sizeOf_spec e.1 e.2
  rw [Json.obj.sizeOf_spec]
  omega

end Json

/-- A text, an integer or a truth value. -/
def Json.IsStrict (v : Json) : Prop :=
  (∃ text, v = .str text) ∨ (∃ n, v = .int n) ∨ ∃ b, v = .bool b

theorem Json.IsStrict.isNull {v : Json} (h : v.IsStrict) : v.isNull = false := by
  obtain ⟨_, rfl⟩ | ⟨_, rfl⟩ | ⟨_, rfl⟩ := h <;> rfl

/-- Whether values of any kind are of the type. -/
def ScalarType.takesAny : ScalarType → Bool
  | .json => true
  | .unknown => true
  | _ => false

/-- Where every outcome is good, the outcomes are those of some values. -/
theorem Payload.eq_map_ok {α ε : Type} {outcomes : List (Except ε α)}
    (h : ∀ r ∈ outcomes, ∃ x, r = .ok x) :
    outcomes = (outcomes.filterMap Except.toOption).map Except.ok := by
  induction outcomes with
  | nil => rfl
  | cons r rest ih =>
    obtain ⟨⟨x, rfl⟩, hrest⟩ := List.forall_mem_cons.1 h
    exact congrArg (Except.ok x :: ·) (ih hrest)

namespace Validator

open Payload

/-! ### Rules -/

/-- What becomes of a field when a payload is accepted. -/
inductive FieldOutcome (V : Validator) (models : Table Model) (data : Payload) (rule : FieldRule) :
    Option Accepted → Prop where
  /-- It is not given, and need not be. -/
  | absent (hnone : memberOf? rule data = none) (hoptional : rule.isRequired = false) :
    FieldOutcome V models data rule none
  /-- It is given as null and need not be given at all, so what it holds does not matter. -/
  | null (key : String) (hmember : memberOf? rule data = some (key, .null))
    (hoptional : rule.isRequired = false) : FieldOutcome V models data rule (some .null)
  /-- It is given as a value that is accepted. -/
  | value (key : String) (v : Json) (a : Accepted) (hmember : memberOf? rule data = some (key, v))
    (hgiven : v.isNull = true → rule.isRequired = true)
    (hcheck : V.check models v rule.isArray rule.content = .ok a) :
    FieldOutcome V models data rule (some a)

/-- The fields that were given, with what was accepted. -/
def givenFields (m : Model) (outcome : FieldRule → Option Accepted) : List (FieldRule × Accepted) :=
  m.fields.values.filterMap fun r ↦ (outcome r).map (r, ·)

/-- How a validator checks values. -/
structure Checks (V : Validator) : Prop where
  /-- A field of any values takes every value, null too, as it is. -/
  loose : ∀ models type v, type.takesAny = true →
    V.check models v false (.scalar type) = .ok (.scalar type v)
  /-- A field of texts takes texts alone. -/
  text : ∀ models v a, V.check models v false (.scalar .text) = .ok a ↔
    ∃ text, v = .str text ∧ a = .scalar .text v
  /-- A field of integers takes integers alone. -/
  integer : ∀ models v a, V.check models v false (.scalar .integer) = .ok a ↔
    ∃ n, v = .int n ∧ a = .scalar .integer v
  /-- A field of truth values takes truth values alone. -/
  boolean : ∀ models v a, V.check models v false (.scalar .boolean) = .ok a ↔
    ∃ b, v = .bool b ∧ a = .scalar .boolean v
  /-- A field of doubles takes doubles. -/
  double :
    ∀ models x, V.check models (.float x) false (.scalar .double) = .ok (.scalar .double (.float x))
  /-- It takes nothing else but integers, which become finite doubles. -/
  double_only : ∀ models v a, V.check models v false (.scalar .double) = .ok a →
    ∃ x, a = .scalar .double (.float x) ∧ (v = .float x ∨ ∃ n, v = .int n ∧ x.isFinite = true)
  /-- A field of numbers takes them. -/
  number : ∀ models numbers k, k ∈ numbers →
    V.check models (.int k) false (.numbers numbers) = .ok (.number k)
  /-- It takes nothing else but truth values and doubles that equal one of them. -/
  number_only : ∀ models numbers v a, V.check models v false (.numbers numbers) = .ok a →
    ∃ k ∈ numbers, a = .number k ∧ (v = .int k ∨ v.isLoose = true)
  /-- A field of arrays takes arrays whose items are all accepted. -/
  items : ∀ models v content a, V.check models v true content = .ok a ↔
    ∃ items vs, v = .arr items ∧ a = .items vs ∧
      (items.map fun item ↦ V.check models item false content) = vs.map Except.ok
  /-- A field that refers to an object takes what the model of the object takes. -/
  reference : ∀ models v object a, V.check models v false (.reference object) = .ok a ↔
    ∃ m, models.get? object = some m ∧ V.checkModel models m v = .ok a
  /-- A model takes objects whose fields all come out well, with other members if it is open. -/
  model : ∀ models m v a, V.checkModel models m v = .ok a ↔ ∃ data outcome, v = .obj data ∧
    (∀ r ∈ m.fields.values, V.FieldOutcome models data r (outcome r)) ∧
    (m.isOpen = true ∨ extrasOf m data = []) ∧ a = .model (givenFields m outcome) (extrasOf m data)
  /-- A closed model complains about every other member. -/
  unknown : ∀ models (m : Model) data, m.isOpen = false → ∀ member ∈ extrasOf m data,
    ∃ ps, V.checkModel models m (.obj data) = .error ps ∧ ⟨[.key member.1], .unknownMember⟩ ∈ ps

/-- How a validator writes accepted values down. -/
structure Writes (V : Validator) : Prop where
  number : ∀ k, V.toJson (.number k) = .int k
  items : ∀ vs, V.toJson (.items vs) = .arr (vs.map V.toJson)
  /-- Fields go by the names of their attributes, and fields and other members that are null are
  left out. Other members are written down like values of no known type. -/
  model : ∀ given extras, V.toJson (.model given extras) = .obj
    ((given.filter fun f ↦ !f.2.isNull).map (fun f ↦ (f.1.key, V.toJson f.2)) ++
      (extras.filter fun e ↦ !e.2.isNull).map fun e ↦ (e.1, V.toJson (.scalar .unknown e.2)))
  /-- A null without a type of its own stays null. -/
  scalar_null : ∀ type, V.toJson (.scalar type .null) = .null
  scalar_bool : ∀ type b, V.toJson (.scalar type (.bool b)) = .bool b
  scalar_int : ∀ type n, V.toJson (.scalar type (.int n)) = .int n
  scalar_str : ∀ type text, V.toJson (.scalar type (.str text)) = .str text
  /-- A double is written down as it is. One that is infinite or no number may become null. -/
  scalar_float : ∀ type x, V.toJson (.scalar type (.float x)) = .float x ∨
    x.isFinite = false ∧ V.toJson (.scalar type (.float x)) = .null
  scalar_arr : ∀ type items, V.toJson (.scalar type (.arr items)) =
    .arr (items.map fun v ↦ V.toJson (.scalar type v))
  /-- Members of a value without fields stay, null or not. -/
  scalar_obj : ∀ type members, V.toJson (.scalar type (.obj members)) =
    .obj (members.map fun e ↦ (e.1, V.toJson (.scalar type e.2)))

/-! ### What is accepted -/

/-- How a value is accepted. -/
inductive ValueOutcome (V : Validator) (models : Table Model) :
    Json → Bool → Package.Content → Accepted → Prop where
  /-- Each item of an array is accepted. -/
  | items (items : List Json) (content : Package.Content) (vs : List Accepted)
    (hitems : (items.map fun v ↦ V.check models v false content) = vs.map Except.ok) :
    ValueOutcome V models (.arr items) true content (.items vs)
  /-- An object is accepted by the model that is referred to. -/
  | object (members : List (String × Json)) (object : String) (m : Model) (a : Accepted)
    (hmodel : models.get? object = some m)
    (hmembers : V.checkModel models m (.obj members) = .ok a) :
    ValueOutcome V models (.obj members) false (.reference object) a
  /-- A value is one of some numbers, or is taken for one. -/
  | number (v : Json) (numbers : List Int) (k : Int) (hmem : k ∈ numbers)
    (hvalue : v = .int k ∨ v.isLoose = true) :
    ValueOutcome V models v false (.numbers numbers) (.number k)
  /-- A value of any kind is taken as it is. -/
  | loose (v : Json) (type : ScalarType) (htype : type.takesAny = true) :
    ValueOutcome V models v false (.scalar type) (.scalar type v)
  /-- A text, an integer or a truth value is taken as it is. -/
  | strict (v : Json) (type : ScalarType) (hvalue : v.IsStrict)
    (hcheck : V.check models v false (.scalar type) = .ok (.scalar type v)) :
    ValueOutcome V models v false (.scalar type) (.scalar type v)
  /-- A double is taken as it is, and an integer as a finite one. -/
  | double (v : Json) (x : Float) (hvalue : v = .float x ∨ ∃ n, v = .int n ∧ x.isFinite = true) :
    ValueOutcome V models v false (.scalar .double) (.scalar .double (.float x))

variable {V : Validator} {models : Table Model} {m : Model} {v : Json} {isArray : Bool}
  {content : Package.Content} {a : Accepted} {type : ScalarType}

/-- Only objects are accepted by a model. -/
theorem Checks.exists_obj (hV : V.Checks) (h : V.checkModel models m v = .ok a) :
    ∃ data outcome, v = .obj data ∧
      (∀ r ∈ m.fields.values, V.FieldOutcome models data r (outcome r)) ∧
      (m.isOpen = true ∨ extrasOf m data = []) ∧
      a = .model (givenFields m outcome) (extrasOf m data) := (hV.model models m v a).1 h

/-- What is accepted is accepted in one of these ways. -/
theorem Checks.outcome (hV : V.Checks) (h : V.check models v isArray content = .ok a) :
    V.ValueOutcome models v isArray content a := by
  cases isArray with
  | true =>
    obtain ⟨items, vs, rfl, rfl, hitems⟩ := (hV.items models v content a).1 h
    exact .items items content vs hitems
  | false =>
    cases content with
    | reference object =>
      obtain ⟨m, hmodel, hm⟩ := (hV.reference models v object a).1 h
      obtain ⟨members, -, rfl, -⟩ := hV.exists_obj hm
      exact .object members object m a hmodel hm
    | numbers numbers =>
      obtain ⟨k, hmem, rfl, hvalue⟩ := hV.number_only models numbers v a h
      exact .number v numbers k hmem hvalue
    | scalar type =>
      cases htype : type.takesAny with
      | true =>
        obtain rfl := Except.ok.inj ((hV.loose models type v htype).symm.trans h)
        exact .loose v type htype
      | false =>
        cases type with
        | text =>
          obtain ⟨text, hv, rfl⟩ := (hV.text models v a).1 h
          exact .strict v .text (.inl ⟨text, hv⟩) h
        | integer =>
          obtain ⟨n, hv, rfl⟩ := (hV.integer models v a).1 h
          exact .strict v .integer (.inr (.inl ⟨n, hv⟩)) h
        | boolean =>
          obtain ⟨b, hv, rfl⟩ := (hV.boolean models v a).1 h
          exact .strict v .boolean (.inr (.inr ⟨b, hv⟩)) h
        | double =>
          obtain ⟨x, rfl, hvalue⟩ := hV.double_only models v a h
          exact .double v x hvalue
        | json => cases htype
        | unknown => cases htype

/-- An array is accepted exactly if each of its items is. -/
theorem Checks.exists_items_iff (hV : V.Checks) {items : List Json} :
    (∃ a, V.check models (.arr items) true content = .ok a) ↔
      ∀ item ∈ items, ∃ a, V.check models item false content = .ok a := by
  constructor
  · rintro ⟨a, ha⟩ item hitem
    obtain ⟨_, vs, heq, -, hvs⟩ := (hV.items models _ content a).1 ha
    obtain rfl := Json.arr.inj heq
    have hmem : V.check models item false content ∈ vs.map Except.ok :=
      hvs ▸ List.mem_map_of_mem hitem
    obtain ⟨b, -, hb⟩ := List.mem_map.1 hmem
    exact ⟨b, hb.symm⟩
  · intro h
    exact ⟨_, (hV.items models _ content _).2
      ⟨items, _, rfl, rfl, eq_map_ok (List.forall_mem_map.2 h)⟩⟩

/-- An integer is accepted for a field of numbers exactly if it is one of them. -/
theorem Checks.exists_int_iff (hV : V.Checks) {numbers : List Int} {k : Int} :
    (∃ a, V.check models (.int k) false (.numbers numbers) = .ok a) ↔ k ∈ numbers := by
  constructor
  · rintro ⟨a, ha⟩
    obtain ⟨n, hn, -, hvalue | hloose⟩ := hV.number_only models numbers _ a ha
    · exact Json.int.inj hvalue ▸ hn
    · cases hloose
  · exact fun hk ↦ ⟨_, hV.number models numbers k hk⟩

/-- Null is accepted of null alone. -/
theorem Checks.isNull_eq (hV : V.Checks) (h : V.check models v isArray content = .ok a) :
    a.isNull = v.isNull := by
  cases hV.outcome h with
  | items => rfl
  | object members object m a hmodel hmembers =>
    obtain ⟨-, outcome, -, -, -, rfl⟩ := hV.exists_obj hmembers
    rfl
  | number v numbers k hmem hvalue =>
    rcases hvalue with rfl | hloose
    · rfl
    · cases v <;> first | rfl | cases hloose
  | loose v type => rfl
  | strict v type hvalue => rfl
  | double v x hvalue => obtain rfl | ⟨n, rfl, -⟩ := hvalue <;> rfl

/-! ### What is written down -/

/-- What was written down of a value without fields is written down as it is. -/
theorem Writes.toJson_scalar_idem (hV : V.Writes) (type : ScalarType) (v : Json) :
    V.toJson (.scalar type (V.toJson (.scalar type v))) = V.toJson (.scalar type v) := by
  -- the parts of a value are smaller than it
  induction v using (measure (sizeOf : Json → Nat)).wf.induction with
  | _ v ih =>
  cases v with
  | null => rw [hV.scalar_null, hV.scalar_null]
  | bool b => rw [hV.scalar_bool, hV.scalar_bool]
  | int n => rw [hV.scalar_int, hV.scalar_int]
  | str text => rw [hV.scalar_str, hV.scalar_str]
  | float x =>
    rcases hV.scalar_float type x with h | ⟨-, h⟩
    · rw [h, h]
    · rw [h, hV.scalar_null]
  | arr items =>
    rw [hV.scalar_arr, hV.scalar_arr, List.map_map]
    exact congrArg Json.arr (List.map_congr_left fun w hw ↦ ih w (Json.sizeOf_lt_arr hw))
  | obj members =>
    rw [hV.scalar_obj, hV.scalar_obj, List.map_map]
    exact congrArg Json.obj (List.map_congr_left fun e he ↦
      Prod.ext rfl (ih e.2 (Json.sizeOf_lt_obj he)))

/-- Only null, and doubles that are infinite or no numbers, are written down as null. -/
theorem Writes.null_or_float (hV : V.Writes) (h : (V.toJson (.scalar type v)).isNull = true) :
    v = .null ∨ ∃ x, v = .float x ∧ x.isFinite = false := by
  cases v with
  | null => exact .inl rfl
  | bool b => rw [hV.scalar_bool] at h; cases h
  | int n => rw [hV.scalar_int] at h; cases h
  | str text => rw [hV.scalar_str] at h; cases h
  | float x =>
    rcases hV.scalar_float type x with hsame | ⟨hfinite, -⟩
    · rw [hsame] at h; cases h
    · exact .inr ⟨x, rfl, hfinite⟩
  | arr items => rw [hV.scalar_arr] at h; cases h
  | obj members => rw [hV.scalar_obj] at h; cases h

/-- A text or an integer is written down of it alone. -/
theorem Writes.toJson_eq_iff (hV : V.Writes) {w : Json}
    (hw : (∃ text, w = .str text) ∨ ∃ n, w = .int n) :
    V.toJson (.scalar type v) = w ↔ v = w := by
  cases v with
  | null => rw [hV.scalar_null]
  | bool b => rw [hV.scalar_bool]
  | int n => rw [hV.scalar_int]
  | str text => rw [hV.scalar_str]
  | float x =>
    obtain ⟨_, rfl⟩ | ⟨_, rfl⟩ := hw <;>
      rcases hV.scalar_float type x with h | ⟨-, h⟩ <;> rw [h] <;> exact ⟨nofun, nofun⟩
  | arr items =>
    rw [hV.scalar_arr]
    obtain ⟨_, rfl⟩ | ⟨_, rfl⟩ := hw <;> exact ⟨nofun, nofun⟩
  | obj members =>
    rw [hV.scalar_obj]
    obtain ⟨_, rfl⟩ | ⟨_, rfl⟩ := hw <;> exact ⟨nofun, nofun⟩

end Validator

end EventSchema
