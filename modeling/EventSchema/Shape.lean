import EventSchema.Json.Printer
import EventSchema.Text.Markup

/-!
# Values of the wrong shape

Most of a schema is taken over without a check of its shape. When a step then meets a value that it
cannot work with, it stops with one of these reasons.
-/

namespace EventSchema

/-- Why a value cannot be used. -/
inductive ShapeError where
  /-- A text to be made plain is no text. -/
  | textExpected (found : Json)
  /-- A text to be joined to others is no text. -/
  | sentenceExpected (found : Json)
  /-- A path below the schema is no text. -/
  | pathExpected (found : Json)
  /-- An array or object stands where a name is looked up. -/
  | nameExpected (found : Json)
  /-- A detail is to be set on what is no object. -/
  | detailsExpected (found : Json)
  /-- A name is looked for in what holds no names. -/
  | containerExpected (found : Json)
  /-- What has no members is asked for one. The word is what it was asked for. -/
  | membersExpected (found : Json) (word : String)
  deriving Inhabited

namespace ShapeError

/-- The message of the reason. -/
def message : ShapeError → String
  | .textExpected v => s!"expected string or bytes-like object, got '{v.className}'"
  | .sentenceExpected v => s!"sequence item 0: expected str instance, {v.className} found"
  | .pathExpected v => s!"unsupported operand type(s) for /: 'PosixPath' and '{v.className}'"
  | .nameExpected v => s!"unhashable type: '{v.className}'"
  | .detailsExpected (.arr _) => "list indices must be integers or slices, not str"
  | .detailsExpected v => s!"'{v.className}' object does not support item assignment"
  | .containerExpected v => s!"argument of type '{v.className}' is not iterable"
  | .membersExpected v word => s!"'{v.className}' object has no attribute '{word}'"

/-- Whether the reason is that a value without members was asked for one. -/
def isMembersExpected : ShapeError → Bool
  | .membersExpected _ _ => true
  | _ => false

end ShapeError

namespace Json

/-- The plain form of a value that should be a text. -/
def plainText (v : Json) : Except ShapeError String :=
  match v with
  | .str s => .ok (Text.plain s)
  | v => .error (.textExpected v)

/-- A value that is looked up as a name: a text, or none if it is some other scalar. Arrays and
objects cannot be looked up. -/
def lookupName (v : Json) : Except ShapeError (Option String) :=
  match v with
  | .str s => .ok (some s)
  | .arr _ => .error (.nameExpected v)
  | .obj _ => .error (.nameExpected v)
  | _ => .ok none

/-- Whether a text occurs in another. -/
def occursIn (needle text : List Char) : Bool :=
  needle.isPrefixOf text || match text with
    | [] => false
    | _ :: rest => occursIn needle rest

/-- Whether a name occurs in a value: among the names of an object, among the items of an array, or
inside a text. -/
def mentions (v : Json) (name : String) : Except ShapeError Bool :=
  match v with
  | .obj members => .ok (Entries.has members name)
  | .arr items => .ok (items.any (·.isText name))
  | .str s => .ok (occursIn name.toList s.toList)
  | v => .error (.containerExpected v)

/-- The members of a value that is asked for one. -/
def membersFor (word : String) (v : Json) : Except ShapeError (Entries Json) :=
  match v with
  | .obj members => .ok members
  | v => .error (.membersExpected v word)

end Json

end EventSchema
