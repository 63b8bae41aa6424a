import EventSchema.Attribute
import EventSchema.Identifier
import EventSchema.Table

/-!
# Definitions and catalogs

A catalog is what one version of a schema says: its objects and event classes as they are defined,
each with a possible ancestor, its categories, and the enumerations of its dictionary.
-/

namespace EventSchema

/-- The two kinds of entities. -/
inductive EntityKind where
  /-- A part of events and of other objects. -/
  | object
  /-- A class of events. -/
  | event
  deriving DecidableEq, Inhabited

/-- The word for a kind. -/
def EntityKind.text : EntityKind → String
  | .object => "object"
  | .event => "event"

/-- A unique identifier as it is given: a number, or a truth value that counts as one or zero. -/
inductive Uid where
  /-- A number. -/
  | number (n : Int)
  /-- A truth value. -/
  | truth (b : Bool)
  deriving DecidableEq, Inhabited

namespace Uid

/-- The number that an identifier counts as. -/
def toInt : Uid → Int
  | .number n => n
  | .truth b => if b then 1 else 0

/-- An identifier as a JSON value. -/
def toJson : Uid → Json
  | .number n => .int n
  | .truth b => .bool b

/-- The identifier that a JSON value is. -/
def ofJson? : Json → Option Uid
  | .int n => some (.number n)
  | .bool b => some (.truth b)
  | _ => none

/-- The text of an identifier. -/
def text (u : Uid) : String := u.toJson.display

end Uid

/-- An object or event class as it is defined, before its ancestors are taken into account. -/
structure Definition where
  /-- The kind. -/
  kind : EntityKind
  /-- The name. -/
  name : String
  /-- The name of the ancestor that it extends. -/
  ancestor : Option String
  /-- The caption. -/
  caption : Json
  /-- The plain description. -/
  description : String
  /-- The attributes. -/
  attributes : Table Attribute
  /-- Whether unknown attributes are refused, if the definition says so. -/
  closed : Option Bool
  /-- The category of an event class. -/
  category : Json
  /-- The identifier of an event class within its category. -/
  uid : Option Uid
  /-- Whether it only serves as an ancestor. -/
  isHidden : Bool
  deriving Inhabited

/-- The class name of a definition. -/
def Definition.typeName (d : Definition) : String := Identifier.typeName d.name

/-- An enumeration of the dictionary. -/
structure SharedEnum where
  /-- The attribute that it belongs to. -/
  name : String
  /-- The caption. -/
  caption : Json
  /-- The numbered values. -/
  values : List EnumValue
  deriving Inhabited

/-- The class name of an enumeration. -/
def SharedEnum.typeName (e : SharedEnum) : String := Identifier.typeName e.name

/-- What one version of a schema defines. -/
structure Catalog where
  /-- The version that the schema states. -/
  version : Json
  /-- The identifiers of the categories. -/
  categories : Table Uid
  /-- The objects. -/
  objects : Table Definition
  /-- The event classes. -/
  events : Table Definition
  /-- The enumerations of the dictionary. -/
  enums : Table SharedEnum
  deriving Inhabited

end EventSchema
