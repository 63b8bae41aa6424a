import EventSchema.Entries
import EventSchema.Decimal.Binary64

/-!
# JSON values

The values that schema documents and payloads are made of. Integers are kept apart from doubles and
have any size; the members of an object keep their order. An object may in principle repeat a name,
so that a statement about documents can say what it needs (`Json.WellFormed`); every operation of
the library reads the first member of a name and keeps names apart.
-/

namespace EventSchema

/-- A JSON value. -/
inductive Json where
  /-- The null value. -/
  | null
  /-- A truth value. -/
  | bool (b : Bool)
  /-- A number written without fraction and exponent. -/
  | int (n : Int)
  /-- Any other number. -/
  | float (x : Float)
  /-- A text. -/
  | str (s : String)
  /-- An array. -/
  | arr (items : List Json)
  /-- An object, its members in order. -/
  | obj (members : List (String × Json))
  deriving Inhabited

namespace Json

/-- What kind of value it is, in the words of messages. -/
def kindText : Json → String
  | .null => "null"
  | .bool true => "true"
  | .bool false => "false"
  | .int _ => "number (int)"
  | .float _ => "number (float)"
  | .str _ => "string"
  | .arr _ => "array"
  | .obj _ => "object"

/-- The name of the kind of value, as complaints about unusable values give it. -/
def className : Json → String
  | .null => "NoneType"
  | .bool _ => "bool"
  | .int _ => "int"
  | .float _ => "float"
  | .str _ => "str"
  | .arr _ => "list"
  | .obj _ => "dict"

/-- Whether a value counts as given: null, false, zero and everything empty do not. -/
def isGiven : Json → Bool
  | .null => false
  | .bool b => b
  | .int n => n != 0
  | .float x => !(Binary64.ofFloat x).isZero
  | .str s => s != ""
  | .arr items => !items.isEmpty
  | .obj members => !members.isEmpty

/-- Whether a value is null. -/
def isNull : Json → Bool
  | .null => true
  | _ => false

/-- The value if it counts as given, else another. -/
def orElse (v w : Json) : Json := if v.isGiven then v else w

/-- The text, if the value is one. -/
def text? : Json → Option String
  | .str s => some s
  | _ => none

/-- Whether a value is a given text. -/
def isText (v : Json) (s : String) : Bool := v.text? == some s

/-- The members, if the value is an object. -/
def members? : Json → Option (Entries Json)
  | .obj ms => some ms
  | _ => none

/-- The member of an object, none for any other value. -/
def member? (v : Json) (n : String) : Option Json := v.members?.bind fun ms => Entries.get? ms n

/-- The value of a text or null. -/
def ofText? : Option String → Json
  | some s => .str s
  | none => .null

mutual

/-- Whether every object in a value has its names once. -/
def WellFormed : Json → Prop
  | .arr items => WellFormedItems items
  | .obj members => (Entries.names members).Nodup ∧ WellFormedMembers members
  | _ => True

/-- Whether every object in the items has its names once. -/
def WellFormedItems : List Json → Prop
  | [] => True
  | v :: vs => WellFormed v ∧ WellFormedItems vs

/-- Whether every object in the values of the members has its names once. -/
def WellFormedMembers : List (String × Json) → Prop
  | [] => True
  | m :: ms => WellFormed m.2 ∧ WellFormedMembers ms

end

end Json

end EventSchema
