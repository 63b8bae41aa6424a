import EventSchema.Package.Plan
import EventSchema.ScalarType

/-!
# Modules of objects and event classes

Each planned object and event class becomes a module: a model class with one field per attribute,
and a dictionary type with one entry per attribute. A module is described first, as the names it
imports, its fields and its entries (`EntityModule`); its text is written from the description
(`EntityModule.text`).

A reference is linked in one of three ways: an object refers to itself by its own names; a reference
that is deferred is imported for type checkers only and bound late; any other is imported at once.
The dictionary type of an object is not there yet when its own entries are written, and that of a
deferred reference is never imported, so entries name them in quotes.
-/

namespace EventSchema.Package

/-- Why the modules of a plan cannot be written. -/
inductive RenderError where
  /-- An attribute refers to an object that is not planned. -/
  | objectUnplanned (name : String)
  /-- A value is of the wrong shape. -/
  | shape (e : ShapeError)

namespace RenderError

/-- The message of a failure. -/
def message : RenderError → String
  | .objectUnplanned name => Text.shown name
  | .shape e => e.message

end RenderError

/-! ### Types -/

/-- What the values of an attribute are, arrays aside. -/
inductive Content where
  /-- Values of an object. -/
  | reference (object : String)
  /-- Some numbers. -/
  | numbers (values : List Int)
  /-- Values of a scalar type. -/
  | scalar (type : ScalarType)
  deriving DecidableEq

/-- What the values of an attribute are. -/
def contentOf (a : Attribute) : Content :=
  match a.target with
  | some object => .reference object
  | none =>
    if a.isEnum then .numbers (a.values.map (·.value)) else .scalar (ScalarType.ofName a.scalarType)

/-- The type of a model field. -/
inductive ModelType where
  /-- A named type. -/
  | name (text : String)
  /-- Some numbers. -/
  | numbers (values : List Int)
  /-- Arrays. -/
  | list (items : ModelType)
  /-- Null, or values of a type. -/
  | optional (type : ModelType)
  deriving DecidableEq

/-- The text of the type of a model field. -/
def ModelType.text : ModelType → String
  | .name s => s
  | .numbers values => "Literal[" ++ ", ".intercalate (values.map toString) ++ "]"
  | .list items => "list[" ++ items.text ++ "]"
  | .optional type => "Optional[" ++ type.text ++ "]"

/-- The type of a dictionary entry. -/
inductive EntryType where
  /-- A named type. -/
  | name (text : String)
  /-- A named type that is not looked up when the entry is written. -/
  | quoted (text : String)
  /-- Arrays. -/
  | list (items : EntryType)
  /-- An entry that must be there. -/
  | required (type : EntryType)
  deriving DecidableEq

/-- The text of the type of a dictionary entry. -/
def EntryType.text : EntryType → String
  | .name s => s
  | .quoted s => Text.literal s
  | .list items => "list[" ++ items.text ++ "]"
  | .required type => "Required[" ++ type.text ++ "]"

/-! ### Links -/

/-- An imported name. -/
structure Binding where
  /-- The name that the other module exports. -/
  exported : String
  /-- The name it goes by in this module. -/
  localName : String
  deriving DecidableEq, Inhabited

/-- How a reference is linked. -/
inductive Link where
  /-- By the module's own names. -/
  | own
  /-- By an import at once, from a module. -/
  | eager (source : String)
  /-- By a late binding to a module. -/
  | late (source : String)
  deriving DecidableEq

/-- The name that an imported name goes by in the module of an entity: itself, unless the module
uses it for something else. -/
def localNameIn (e : Entity) (name : String) : String :=
  if reservedNames.contains name || name == e.typeName || name == dictName e then name ++ "_"
  else name

/-- How an entity's reference to an object is linked. -/
def linkOf (deferral : Deferral) (e : Entity) (object : String) (target : Entity) : Link :=
  if e.kind = .object ∧ object = e.name then .own
  else
    match e.kind with
    | .event => .eager ("." ++ "." ++ objectsPackage ++ "." ++ moduleOf target)
    | .object =>
      if deferral.isDeferred e.name object then .late (moduleOf target)
      else .eager ("." ++ moduleOf target)

/-- The names that are imported for a reference. -/
def bindingsOf (e target : Entity) : List Binding :=
  [target.typeName, dictName target].map fun name => ⟨name, localNameIn e name⟩

/-- The types by which a reference is written. -/
def referenceTypes (e target : Entity) : Link → ModelType × EntryType
  | .own => (.name e.typeName, .quoted (dictName e))
  | .eager _ => (.name (localNameIn e target.typeName), .name (localNameIn e (dictName target)))
  | .late _ => (.name (localNameIn e target.typeName), .quoted (localNameIn e (dictName target)))

/-! ### Fields and entries -/

/-- A field of a model class. -/
structure Field where
  /-- The name. -/
  name : String
  /-- The type. -/
  type : ModelType
  /-- Whether the field may be left out. -/
  isOptional : Bool
  /-- The name of the attribute, if the field goes by another. -/
  alternative : Option String
  /-- The description, if there is one. -/
  description : Option String
  /-- The notice that the field is deprecated. -/
  deprecation : Option String

/-- An entry of a dictionary type. -/
structure Entry where
  /-- The name of the attribute. -/
  name : String
  /-- The type. -/
  type : EntryType

/-- A text that is left out if it is empty. -/
def nonEmpty? (s : String) : Option String := if s = "" then none else some s

/-- The types by which the content of an attribute is written. -/
def contentTypes (planned : Table Entity) (deferral : Deferral) (e : Entity) :
    Content → Except RenderError (ModelType × EntryType)
  | .reference object =>
    match planned.get? object with
    | some target => .ok (referenceTypes e target (linkOf deferral e object target))
    | none => .error (.objectUnplanned object)
  | .numbers values => .ok (.numbers values, .name "int")
  | .scalar type => .ok (.name type.modelText, .name type.plainText)

/-- The field and the entry of an attribute. -/
def fieldOf (planned : Table Entity) (deferral : Deferral) (e : Entity) (a : Attribute) :
    Except RenderError (Field × Entry) := do
  let (model, entry) ← contentTypes planned deferral e (contentOf a)
  let model := if a.isArray then .list model else model
  let entry := if a.isArray then .list entry else entry
  let name := Identifier.fieldName a.name
  .ok (
    { name := name
      type := if a.isRequired then model else .optional model
      isOptional := !a.isRequired
      alternative := if name = a.name then none else some a.name
      description := nonEmpty? a.description
      deprecation := a.deprecation.bind nonEmpty? },
    ⟨a.name, if a.isRequired then .required entry else entry⟩)

/-- The line of a field. -/
def Field.line (f : Field) : String :=
  let args := (if f.isOptional then ["default=None"] else [])
    ++ (f.alternative.map fun s => "alias=" ++ Text.literal s).toList
    ++ (f.description.map fun s => "description=" ++ Text.literal s).toList
    ++ (f.deprecation.map fun s => "deprecated=" ++ Text.literal s).toList
  "    " ++ f.name ++ ": " ++ f.type.text ++ " = Field(" ++ ", ".intercalate args ++ ")"

/-- The line of an entry. -/
def Entry.line (f : Entry) : String := s!"        {Text.literal f.name}: {f.type.text},"

/-! ### Sibling pairs -/

/-- An enumerated attribute of an event class together with the attribute that carries its label. -/
structure LabelledAttribute where
  /-- The name of the enumerated attribute. -/
  name : String
  /-- The name of the attribute that carries the label. -/
  sibling : String
  /-- The enumerated values. -/
  values : List EnumValue

/-- The labelled attribute that an attribute is, if its sibling is among the attributes. -/
def labelled? (attributes : Table Attribute) (a : Attribute) :
    Except ShapeError (Option LabelledAttribute) :=
  if a.isEnum && a.sibling.isGiven then do
    match ← a.sibling.lookupName with
    | some sibling =>
      .ok (if attributes.has sibling then some ⟨a.name, sibling, a.values⟩ else none)
    | none => .ok none
  else .ok none

/-- The labelled attributes of an entity. -/
def labelledAttributes (e : Entity) : Except ShapeError (List LabelledAttribute) :=
  (e.attributes.values.mapM (labelled? e.attributes)).map fun found => found.filterMap id

/-- The table of captions of a labelled attribute. -/
def LabelledAttribute.labelsName (a : LabelledAttribute) : String :=
  Identifier.constantName a.name ++ "_LABELS"

/-- The enumerated values by the names of their tables of captions. Of tables with one name the last
one counts. -/
def captionTables (labelled : List LabelledAttribute) : Table (List EnumValue) :=
  .ofList (labelled.map fun a => (a.labelsName, a.values))

/-! ### Modules -/

/-- The module of an object or event class. -/
structure EntityModule where
  /-- The entity. -/
  entity : Entity
  /-- The version. -/
  version : Json
  /-- The names for types that are imported. -/
  typing : NameSet
  /-- The names of the validation library that are imported. -/
  validation : NameSet
  /-- The names of the model library that are imported, by module. -/
  support : List (String × NameSet)
  /-- The names of other modules of the package that are imported at once, by module. -/
  eager : Table (List Binding)
  /-- The names of other modules of the package that are bound late, by module. -/
  late : Table (List Binding)
  /-- The enumerated attributes with labels, for an event class. -/
  labelled : List LabelledAttribute
  /-- The fields. -/
  fields : List Field
  /-- The entries. -/
  entries : List Entry
  /-- The first paragraph of the documentation of the class. -/
  summary : String

/-- Imports that are added to those of a module. -/
def addBindings (t : Table (List Binding)) (source : String) (bindings : List Binding) :
    Table (List Binding) :=
  t.put source ((t.get? source).getD [] ++ bindings)

/-- The different objects that attributes refer to, in order of their first occurrence. -/
def targetsOf (attributes : List Attribute) : List String :=
  (attributes.filterMap Attribute.target).foldl
    (fun names name => if names.contains name then names else names ++ [name]) []

/-- The links of an entity to the planned objects that it refers to. -/
def linksOf (planned : Table Entity) (deferral : Deferral) (e : Entity) : List (Link × Entity) :=
  (targetsOf e.attributes.values).filterMap fun object =>
    (planned.get? object).map fun target => (linkOf deferral e object target, target)

/-- The names that are imported at once, by module. -/
def eagerImports (e : Entity) (links : List (Link × Entity)) : Table (List Binding) :=
  links.foldl (fun t link =>
    match link.1 with
    | .eager source => addBindings t source (bindingsOf e link.2)
    | _ => t) .empty

/-- The names that are bound late, by module. -/
def lateImports (e : Entity) (links : List (Link × Entity)) : Table (List Binding) :=
  links.foldl (fun t link =>
    match link.1 with
    | .late source => addBindings t source (bindingsOf e link.2)
    | _ => t) .empty

/-- The names for types that an attribute needs. -/
def typingOf (a : Attribute) : List String :=
  (match contentOf a with
    | .reference _ => []
    | .numbers _ => ["Literal"]
    | .scalar type => if type = .json ∨ type = .unknown then ["Any"] else [])
    ++ [if a.isRequired then "Required" else "Optional"]

/-- The names of the validation library that an attribute needs. -/
def validationOf (a : Attribute) : List String :=
  match contentOf a with
  | .scalar .unknown => []
  | .scalar type => [type.modelText]
  | _ => []

/-- The base class of the models of a kind. -/
def baseName : EntityKind → String
  | .event => "OcsfEvent"
  | .object => "OcsfObject"

/-- The names of the model library that a module imports, by module. -/
def supportOf (kind : EntityKind) (hasPairs : Bool) : List (String × NameSet) :=
  let base := [("ocsf_models.base", NameSet.ofList [baseName kind])]
  match kind with
  | .object => base
  | .event =>
    base ++ (if hasPairs then [("ocsf_models.sibling", NameSet.ofList ["SiblingPair"])] else [])
      ++ [("ocsf_models.uid", NameSet.ofList ["UidConfig"])]

/-- The first paragraph of the documentation of a class: the description, the caption or the
name. -/
def summaryOf (e : Entity) : Except ShapeError String :=
  if e.description ≠ "" then .ok e.description
  else
    match e.caption.orElse (.str e.name) with
    | .str s => .ok s
    | found => .error (.sentenceExpected found)

/-- The module of a planned entity. -/
def EntityModule.of (p : Plan) (e : Entity) : Except RenderError EntityModule := do
  let attributes := e.attributes.values
  let fields ← attributes.mapM (fieldOf p.objects p.deferral e)
  let labelled ←
    match e.kind with
    | .event => (labelledAttributes e).mapError .shape
    | .object => .ok []
  let summary ← (summaryOf e).mapError .shape
  let links := linksOf p.objects p.deferral e
  let late := lateImports e links
  .ok {
    entity := e
    version := p.schema.version
    typing := NameSet.ofList
      (attributes.flatMap typingOf ++ ["TypedDict"] ++ if late.size = 0 then []
        else ["TYPE_CHECKING"])
    validation := NameSet.ofList (["ConfigDict", "Field"] ++ attributes.flatMap validationOf)
    support := supportOf e.kind !labelled.isEmpty
    eager := eagerImports e links
    late := late
    labelled := labelled
    fields := fields.map Prod.fst
    entries := fields.map Prod.snd
    summary := summary }

/-- The fields of the model class by their names. Of fields with one name the last one counts. -/
def EntityModule.fieldTable (m : EntityModule) : Table Field :=
  .ofList (m.fields.map fun f => (f.name, f))

/-- Whether an entry must be there. -/
def Entry.isRequired (f : Entry) : Bool :=
  match f.type with
  | .required _ => true
  | _ => false

/-! ### The text of a module -/

/-- Where the documentation of schemas is. -/
def schemaUrl : String := "https://schema.ocsf.io"

/-- An imported name as an import lists it. -/
def Binding.text (b : Binding) : String :=
  if b.exported = b.localName then b.exported else s!"{b.exported} as {b.localName}"

/-- Imported names as an import lists them. -/
def bindingList (bs : List Binding) : String := ", ".intercalate (bs.map Binding.text)

/-- The line that imports names from a module. -/
def importLine (source : String) (names : List String) : String :=
  "from " ++ source ++ " import " ++ ", ".intercalate names

namespace EntityModule

/-- The documentation of the module. -/
def moduleDoc (m : EntityModule) : List String :=
  let (kind, collection) := match m.entity.kind with
    | .event => ("event class", "classes")
    | .object => ("object", "objects")
  let caption := (m.entity.caption.orElse (.str m.entity.name)).display
  docBlock (s!"OCSF {m.version.display} {kind}: {caption}.\n\n"
    ++ s!"{schemaUrl}/{m.version.display}/{collection}/{m.entity.name}") ""

/-- The documentation of the model class. -/
def classDoc (m : EntityModule) : List String :=
  let uids := match m.entity.kind with
    | .event =>
      s!"\n\nCategory UID: {m.entity.categoryUid.text}. Class UID: {m.entity.classUid}."
    | .object => ""
  docBlock (m.summary ++ uids) classIndent

/-- The lines of the late bindings. -/
def lateLines (m : EntityModule) : List String :=
  let late := m.late.sorted.entries
  ["", "if TYPE_CHECKING:"]
    ++ late.map (fun e => s!"    from .{e.1} import {bindingList e.2}")
    ++ ["", "# Bound on first validation by ocsf_models.base.bind_deferred_refs",
      "DEFERRED_REFS = \x7b"]
    ++ late.flatMap (fun e => e.2.map fun b =>
      s!"    {Text.literal b.localName}: ({Text.literal e.1}, {Text.literal b.exported}),")
    ++ ["\x7d"]

/-- The lines of the imports. -/
def importLines (m : EntityModule) : List String :=
  let eager := m.eager.sorted.entries
  ["from typing import " ++ ", ".intercalate m.typing.toList, "",
    "from pydantic import " ++ ", ".intercalate m.validation.toList, ""]
    ++ m.support.map (fun s => importLine s.1 s.2.toList)
    ++ (if eager.isEmpty then []
      else "" :: eager.map fun e => s!"from {e.1} import {bindingList e.2}")
    ++ (if m.late.size = 0 then [] else m.lateLines)

/-- The lines of the tables of captions. -/
def labelTables (m : EntityModule) : List String :=
  m.labelled.flatMap fun a =>
    ["", a.labelsName ++ " = \x7b"] ++ EnumModel.labelLines a.values ++ ["\x7d"]

/-- The lines of the settings of an event class. -/
def eventLines (m : EntityModule) : List String :=
  match m.entity.kind with
  | .object => []
  | .event =>
    ["", s!"    UID_CONFIG = UidConfig(category_uid={m.entity.categoryUid.text},"
        ++ s!" class_uid={m.entity.classUid})"]
      ++ (if m.labelled.isEmpty then []
        else ["    SIBLING_PAIRS = ("]
          ++ m.labelled.map (fun a => s!"        SiblingPair({Text.literal a.name},"
            ++ s!" {Text.literal a.sibling}, {a.labelsName}),")
          ++ ["    )"])

/-- The text of the module. -/
def text (m : EntityModule) : String :=
  let base := baseName m.entity.kind
  let extra := if m.entity.closed then "forbid" else "allow"
  joinLines (
    [banner] ++ m.moduleDoc ++ ["", "from __future__ import annotations", ""]
      ++ m.importLines ++ m.labelTables
      ++ ["", "", s!"class {m.entity.typeName}({base}):"] ++ m.classDoc
      ++ ["", s!"    model_config = ConfigDict(extra={Text.literal extra})"] ++ m.eventLines
      ++ (if m.fields.isEmpty then [] else "" :: m.fields.map Field.line)
      ++ ["", "", dictName m.entity ++ " = TypedDict(", s!"    {Text.literal (dictName m.entity)},",
        "    \x7b"]
      ++ m.entries.map Entry.line ++ ["    \x7d,", "    total=False,", ")", ""])

end EntityModule

end EventSchema.Package
