import EventSchema.Json.Printer
import EventSchema.NameSet

/-!
# Attributes and enumerations

An attribute of an object or event class, and the numbered values that it may be limited to. The
parts of an attribute that schemas leave open (captions, the requirement, the sibling and the
profile) are JSON values taken over as they stand.

An attribute remembers which of its details its owner gave itself: when a descendant redefines the
attribute, a detail that the descendant did not give comes from the ancestor (`Attribute.refine`).
-/

namespace EventSchema

/-- A numbered value of an enumeration. -/
structure EnumValue where
  /-- The number. -/
  value : Int
  /-- The caption. -/
  caption : Json
  /-- The plain description. -/
  description : String
  deriving Inhabited

/-- An attribute of an object or event class. -/
structure Attribute where
  /-- The name. -/
  name : String
  /-- The name of the scalar type, `object_t` for a reference. -/
  scalarType : String
  /-- The object that the attribute refers to. -/
  target : Option String
  /-- Whether the attribute holds an array. -/
  isArray : Bool
  /-- How far the attribute must be given. -/
  requirement : Json
  /-- The caption. -/
  caption : Json
  /-- The plain description. -/
  description : String
  /-- The name of the attribute that carries the label of this one. -/
  sibling : Json
  /-- The numbered values. -/
  enumValues : Option (List EnumValue)
  /-- The notice that the attribute is deprecated. -/
  deprecation : Option String
  /-- The profile that the attribute belongs to. -/
  profile : Json
  /-- The details that the owner of the attribute gave itself. -/
  overrides : NameSet
  deriving Inhabited

namespace Attribute

/-- The requirement of attributes that must be given. -/
def requiredWord : String := "required"

/-- The requirement of attributes for which none is given. -/
def optionalWord : String := "optional"

/-- Whether the attribute must be given. -/
def isRequired (a : Attribute) : Bool := a.requirement.isText requiredWord

/-- Whether the attribute refers to an object. -/
def isReference (a : Attribute) : Bool := a.target.isSome

/-- The object that the attribute refers to, if it has a name. -/
def target? (a : Attribute) : Option String := a.target.filter (· ≠ "")

/-- The numbered values, none if there is no enumeration. -/
def values (a : Attribute) : List EnumValue := a.enumValues.getD []

/-- Whether the attribute holds the number of an enumerated value. -/
def isEnum (a : Attribute) : Bool := !a.values.isEmpty && a.name.endsWith "_id"

end Attribute

/-! ### Numbered values by number -/

namespace EnumValue

/-- Put a value among values that ascend by number, in place of one with the same number. -/
def insert (v : EnumValue) : List EnumValue → List EnumValue
  | [] => [v]
  | w :: ws =>
    if v.value < w.value then v :: w :: ws
    else if v.value = w.value then v :: ws
    else w :: insert v ws

/-- The values with each number once, ascending. Of equal numbers the last value counts. -/
def byNumber (vs : List EnumValue) : List EnumValue := vs.foldl (fun r v => insert v r) []

/-- The union of two enumerations, ascending by number. The second wins where both have a number;
an absent enumeration leaves the other as it is. -/
def union : Option (List EnumValue) → Option (List EnumValue) → Option (List EnumValue)
  | none, later => later
  | earlier, none => earlier
  | some earlier, some later => some (byNumber (earlier ++ later))

end EnumValue

namespace Attribute


/-- Redefine an attribute of an ancestor. Of the overridable details those that the descendant did
not give itself stay the ancestor's. -/
def refine (ancestor descendant : Attribute) : Attribute :=
  let given := descendant.overrides.has
  { descendant with
    requirement := if given "requirement" then descendant.requirement else ancestor.requirement
    caption := if given "caption" then descendant.caption else ancestor.caption
    description := if given "description" then descendant.description else ancestor.description
    deprecation := if given "@deprecated" then descendant.deprecation else ancestor.deprecation
    enumValues := EnumValue.union ancestor.enumValues descendant.enumValues
    sibling := descendant.sibling.orElse ancestor.sibling
    profile := descendant.profile.orElse ancestor.profile
    overrides := ancestor.overrides.union descendant.overrides }

end Attribute

end EventSchema
