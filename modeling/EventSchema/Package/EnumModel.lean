import EventSchema.Entity
import EventSchema.Package.Source

/-!
# Enumerations of a package

An enumeration becomes a module of its own: a class with one member per value and a table of
captions. There is one for each enumeration of the dictionary, and one for the activities of each
event class that has activities of its own.
-/

namespace EventSchema.Package

/-- An enumeration of a package. -/
structure EnumModel where
  /-- The class name. -/
  typeName : String
  /-- The caption. -/
  caption : Json
  /-- The values. -/
  values : List EnumValue
  deriving Inhabited

namespace EnumModel

/-- The module that holds the enumeration. -/
def moduleName (e : EnumModel) : String := Identifier.moduleName e.typeName

/-- The name of the table of captions. -/
def labelsName (e : EnumModel) : String :=
  Identifier.constantName (Identifier.fileName e.typeName) ++ "_LABELS"

/-- The enumeration of a dictionary attribute. -/
def ofShared (e : SharedEnum) : EnumModel := ⟨e.typeName, e.caption, e.values⟩

/-- The value for what is not known. -/
def unknownValue : EnumValue := ⟨0, .str "Unknown", ""⟩

/-- The value for what has no value of its own. -/
def otherValue : EnumValue := ⟨99, .str "Other", ""⟩

/-- The enumeration of the activities of an event class, if it has activities other than the two
that every class has. The two are added where they are missing. -/
def activities? (event : Entity) : Option EnumModel :=
  match event.attributes.get? "activity_id" with
  | none => none
  | some a =>
    if a.values.any fun v => v.value ≠ unknownValue.value && v.value ≠ otherValue.value then
      some {
        typeName := event.typeName ++ "ActivityId"
        caption := .str ((event.caption.orElse (.str event.typeName)).display ++ " Activity ID")
        values := EnumValue.byNumber ([unknownValue, otherValue] ++ a.values) }
    else none

/-- The member names of values. A name that a value before has is told apart by the number. -/
def memberNames (taken : List String) : List EnumValue →
    Except ShapeError (List (String × EnumValue))
  | [] => .ok []
  | v :: vs =>
    match v.caption with
    | .str caption => do
      let name := Identifier.memberName caption
      let name := if taken.contains name then s!"{name}_{v.value}" else name
      let rest ← memberNames (name :: taken) vs
      .ok ((name, v) :: rest)
    | found => .error (.textExpected found)

/-- The members of the class. -/
def members (e : EnumModel) : Except ShapeError (List (String × EnumValue)) :=
  memberNames [] e.values

/-- The members that stand for numbers: of members with equal numbers only the first does, the
others are further names for it. -/
def standing : List (String × EnumValue) → List (String × Int)
  | [] => []
  | m :: ms => (m.1, m.2.value) :: (standing ms).filter fun n => n.2 ≠ m.2.value

/-- The lines of a table of captions. -/
def labelLines (values : List EnumValue) : List String :=
  values.map fun v => s!"    {v.value}: {v.caption.document Json.codeLayout},"

/-- The lines of a member. -/
def memberLines (m : String × EnumValue) : List String :=
  s!"    {m.1} = {m.2.value}" ::
    (if m.2.description = "" then [] else docBlock m.2.description classIndent)

/-- The caption that is shown: the class name if there is none. -/
def shownCaption (e : EnumModel) : String := (e.caption.orElse (.str e.typeName)).display

/-- The text of the module. -/
def moduleText (e : EnumModel) (version : Json) : Except ShapeError String := do
  let members ← e.members
  .ok (joinLines (
    [banner] ++ docBlock s!"OCSF {version.display} enum: {e.shownCaption}." ""
      ++ ["", "from enum import IntEnum", "", "", s!"class {e.typeName}(IntEnum):"]
      ++ docBlock s!"{e.shownCaption} values." classIndent ++ [""]
      ++ members.flatMap memberLines
      ++ ["", "", s!"{e.labelsName}: dict[int, str] = \x7b"]
      ++ labelLines e.values ++ ["\x7d", ""]))

end EnumModel

end EventSchema.Package
