import EventSchema.Package.EntityModule
import EventSchema.Payload.Sibling

/-!
# Models and accepted payloads

A model says which fields a payload may have and what their values are. Whether a payload keeps to a
model is checked by a `Validator`, which the library leaves open: it gives either all the problems
of a payload or the accepted value (`Accepted`), which remembers what was given, and writes accepted
values down again.
-/

namespace EventSchema

/-! ### Models -/

/-- What a model says about a field. -/
structure FieldRule where
  /-- The name of the field. -/
  name : String
  /-- The name of the attribute, by which payloads usually give the field. -/
  key : String
  /-- What the values are, arrays aside. -/
  content : Package.Content
  /-- Whether the field holds an array. -/
  isArray : Bool
  /-- Whether the field must be given. Other fields may also be null. -/
  isRequired : Bool

/-- What payloads of a class look like. -/
structure Model where
  /-- The fields by their names. -/
  fields : Table FieldRule
  /-- Whether members that are no fields are kept. -/
  isOpen : Bool
  deriving Inhabited

/-- The rule of an attribute. -/
def FieldRule.ofAttribute (a : Attribute) : FieldRule where
  name := Identifier.fieldName a.name
  key := a.name
  content := Package.contentOf a
  isArray := a.isArray
  isRequired := a.isRequired

/-- The model of an entity. Of attributes that share a field name the last one counts. -/
def Model.ofEntity (e : Entity) : Model where
  fields := .ofList (e.attributes.values.map fun a =>
    (Identifier.fieldName a.name, FieldRule.ofAttribute a))
  isOpen := !e.closed

namespace Payload

/-! ### Problems -/

/-- A step from a value to a part of it. -/
inductive Step where
  /-- To a member of an object. -/
  | key (name : String)
  /-- To an item of an array. -/
  | index (n : Nat)
  deriving DecidableEq

/-- What is wrong with a value. -/
inductive Complaint where
  /-- A required field is missing. -/
  | missing
  /-- The value should be a text. -/
  | textExpected
  /-- The value should be an integer. -/
  | integerExpected
  /-- The value should be a truth value. -/
  | booleanExpected
  /-- The value should be a double. -/
  | doubleExpected
  /-- The value is none of the numbers that it may be. -/
  | otherNumber
  /-- The value should be an array. -/
  | arrayExpected
  /-- The value should be an object. -/
  | objectExpected
  /-- The member is no field, and the model is closed. -/
  | unknownMember
  /-- The payload contradicts itself. -/
  | contradiction (e : PayloadError)

/-- A complaint with the place it is about. -/
structure Problem where
  /-- The steps to the place. -/
  place : List Step
  /-- What is wrong. -/
  complaint : Complaint

/-- A problem seen from one step above. -/
def Problem.below (s : Step) (p : Problem) : Problem := { p with place := s :: p.place }

/-- A problem with the value itself. -/
def problem (c : Complaint) : List Problem := [⟨[], c⟩]

/-! ### Accepted values -/

/-- A value that was accepted. -/
inductive Accepted where
  /-- Null, for a field that may be left out. -/
  | null
  /-- A value of a scalar type. -/
  | scalar (type : ScalarType) (v : Json)
  /-- One of the numbers that a field may have. -/
  | number (n : Int)
  /-- An array. -/
  | items (vs : List Accepted)
  /-- An object: the fields that were given, and the members that are no fields. -/
  | model (given : List (FieldRule × Accepted)) (extras : List (String × Json))
  deriving Inhabited

namespace Accepted

/-- Whether null was accepted. -/
def isNull : Accepted → Bool
  | .null => true
  | .scalar _ v => v.isNull
  | _ => false

/-- The names of what was given, fields as well as other members. -/
def givenNames : Accepted → NameSet
  | .model given extras => .ofList (given.map (·.1.name) ++ extras.map Prod.fst)
  | _ => .empty

/-- The names of the members that are no fields. -/
def extraNames : Accepted → NameSet
  | .model _ extras => .ofList (extras.map Prod.fst)
  | _ => .empty

end Accepted

/-- The outcome of a check: problems, or the accepted value. -/
abbrev Checked := Except (List Problem) Accepted

/-! ### Members of a payload -/

/-- The member by which a payload gives a field: that of the attribute's name, else that of the
field's own name. -/
def memberOf? (rule : FieldRule) (data : Payload) : Option (String × Json) :=
  match Entries.get? data rule.key with
  | some v => some (rule.key, v)
  | none => (Entries.get? data rule.name).map fun v => (rule.name, v)

/-- The members that no field takes. -/
def extrasOf (m : Model) (data : Payload) : Entries Json :=
  let taken := m.fields.values.filterMap fun rule => (memberOf? rule data).map Prod.fst
  data.filter fun e => !taken.contains e.1

end Payload

/-! ### Validators -/

/-- What checks payloads and writes down what was accepted. -/
structure Validator where
  /-- Check a value against what a field holds: an array or not, and of what. References to objects
  are checked against the given models. -/
  check : Table Model → Json → Bool → Package.Content → Payload.Checked
  /-- Check a value against a model. -/
  checkModel : Table Model → Model → Json → Payload.Checked
  /-- Write an accepted value down, as a payload again. -/
  toJson : Payload.Accepted → Json

end EventSchema
