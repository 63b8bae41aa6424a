import EventSchema.Decimal.Reading
import EventSchema.Payload.Model

/-!
# Checking payloads

The validator of the library (`Payload.validator`). Problems come in the order of the fields, and
what was accepted goes by the names of attributes when it is written down (`Accepted.toJson`).

The check goes by the structure of the payload: the members of an object are turned into checks of
their values first, and the fields of the model then pick the ones they need.
-/

namespace EventSchema

/-! ### Writing down -/

namespace Json

mutual

/-- A value with null in the place of doubles that are infinite or no numbers. -/
def finite : Json → Json
  | .float x => if x.isFinite then .float x else .null
  | .arr items => .arr (finiteItems items)
  | .obj members => .obj (finiteMembers members)
  | v => v

/-- Items with null in the place of doubles that are infinite or no numbers. -/
def finiteItems : List Json → List Json
  | [] => []
  | v :: vs => v.finite :: finiteItems vs

/-- Members with null in the place of doubles that are infinite or no numbers. -/
def finiteMembers : List (String × Json) → List (String × Json)
  | [] => []
  | (n, v) :: ms => (n, v.finite) :: finiteMembers ms

end

end Json

namespace Payload

namespace Accepted

mutual

/-- An accepted value as a payload again: fields go by the names of their attributes, and members
that are null are left out. A value that may be of any type keeps no double that is infinite or no
number. -/
def toJson : Accepted → Json
  | .null => .null
  | .scalar .unknown v => v.finite
  | .scalar _ v => v
  | .number n => .int n
  | .items vs => .arr (toJsonItems vs)
  | .model given extras =>
    .obj (toJsonFields given ++ (extras.filter fun e => !e.2.isNull).map fun e => (e.1, e.2.finite))

/-- Accepted items as items again. -/
def toJsonItems : List Accepted → List Json
  | [] => []
  | v :: vs => v.toJson :: toJsonItems vs

/-- Accepted fields as members again. -/
def toJsonFields : List (FieldRule × Accepted) → List (String × Json)
  | [] => []
  | (rule, v) :: rest =>
    if v.isNull then toJsonFields rest else (rule.key, v.toJson) :: toJsonFields rest

end

end Accepted

/-! ### Scalars and numbers -/

/-- An integer as a double, if it is not too large. -/
def doubleOf? (n : Int) : Option Float :=
  let x := Decimal.readFloat (decide (n < 0)) n.natAbs 0
  if x.isFinite then some x else none

/-- Check a scalar. An integer is accepted as a double; no other value changes its type. -/
def checkScalar (type : ScalarType) (v : Json) : Checked :=
  match type, v with
  | .text, .str _ => .ok (.scalar .text v)
  | .text, _ => .error (problem .textExpected)
  | .integer, .int _ => .ok (.scalar .integer v)
  | .integer, _ => .error (problem .integerExpected)
  | .boolean, .bool _ => .ok (.scalar .boolean v)
  | .boolean, _ => .error (problem .booleanExpected)
  | .double, .float _ => .ok (.scalar .double v)
  | .double, .int n =>
    match doubleOf? n with
    | some x => .ok (.scalar .double (.float x))
    | none => .error (problem .doubleExpected)
  | .double, _ => .error (problem .doubleExpected)
  | .json, _ => .ok (.scalar .json v)
  | .unknown, _ => .ok (.scalar .unknown v)

/-- The integer that a value equals as a number. -/
def integerValue? : Json → Option Int
  | .int n => some n
  | .bool b => some (if b then 1 else 0)
  | .float x => (Binary64.ofFloat x).toInt?
  | _ => none

/-- Check that a value equals one of some numbers, and take that number. -/
def checkNumber (numbers : List Int) (v : Json) : Checked :=
  match integerValue? v with
  | some n => if numbers.contains n then .ok (.number n) else .error (problem .otherNumber)
  | none => .error (problem .otherNumber)

/-! ### Objects -/

/-- The check of a value that is still to be told whether it is an array and of what. -/
abbrev Check := Bool → Package.Content → Checked

/-- Check one field: its problems, or the value that was given, if there is one. -/
def checkField (checks : Entries Check) (data : Payload) (rule : FieldRule) :
    Except (List Problem) (Option Accepted) :=
  match memberOf? rule data with
  | none => if rule.isRequired then .error [⟨[.key rule.key], .missing⟩] else .ok none
  | some (key, v) =>
    if v.isNull && !rule.isRequired then .ok (some .null)
    else
      match checks.get? key with
      | none => .ok none
      | some check =>
        match check rule.isArray rule.content with
        | .ok accepted => .ok (some accepted)
        | .error ps => .error (ps.map (Problem.below (.key key)))

/-- The problems with the members that no field takes. -/
def extraProblems (m : Model) (data : Payload) : List Problem :=
  if m.isOpen then [] else (extrasOf m data).map fun e => ⟨[.key e.1], .unknownMember⟩

/-- The problems of outcomes. -/
def problemsOf {α : Type} (rs : List (Except (List Problem) α)) : List Problem :=
  rs.flatMap fun r =>
    match r with
    | .ok _ => []
    | .error ps => ps

/-- Check all fields of an object, then its other members. -/
def checkObject (m : Model) (checks : Entries Check) (data : Payload) : Checked :=
  let outcomes := m.fields.values.map fun rule => (rule, checkField checks data rule)
  match problemsOf (outcomes.map Prod.snd) ++ extraProblems m data with
  | [] =>
    .ok (.model
      (outcomes.filterMap fun o =>
        match o.2 with
        | .ok (some v) => some (o.1, v)
        | _ => none)
      (extrasOf m data))
  | ps => .error ps

/-- The accepted items, or the problems of all items with their places. -/
def gatherItems (outcomes : List Checked) : Checked :=
  let placed := (List.range outcomes.length).zip outcomes |>.map fun o =>
    o.2.mapError (List.map (Problem.below (.index o.1)))
  match problemsOf placed with
  | [] => .ok (.items (outcomes.filterMap Except.toOption))
  | ps => .error ps

/-! ### The check -/

mutual

/-- Check a value. -/
def check (models : Table Model) : Json → Check
  | .arr items, true, content => gatherItems (checkItems models items content)
  | _, true, _ => .error (problem .arrayExpected)
  | .obj members, false, .reference object =>
    match models.get? object with
    | some m => checkObject m (checkMembers models members) members
    | none => .error (problem .objectExpected)
  | _, false, .reference _ => .error (problem .objectExpected)
  | v, false, .numbers ns => checkNumber ns v
  | v, false, .scalar type => checkScalar type v

/-- Check items. -/
def checkItems (models : Table Model) : List Json → Package.Content → List Checked
  | [], _ => []
  | v :: vs, content => check models v false content :: checkItems models vs content

/-- The checks of members. -/
def checkMembers (models : Table Model) : List (String × Json) → Entries Check
  | [] => []
  | (n, v) :: ms => (n, check models v) :: checkMembers models ms

end

/-- Check a payload against a model. -/
def checkPayload (models : Table Model) (m : Model) (data : Payload) : Checked :=
  checkObject m (checkMembers models data) data

end Payload

/-- Check any value against a model. -/
def Model.check (models : Table Model) (m : Model) (v : Json) : Payload.Checked :=
  match v with
  | .obj data => Payload.checkPayload models m data
  | _ => .error (Payload.problem .objectExpected)

/-- The validator of the library. -/
def Payload.validator : Validator := ⟨Payload.check, Model.check, Payload.Accepted.toJson⟩

end EventSchema
