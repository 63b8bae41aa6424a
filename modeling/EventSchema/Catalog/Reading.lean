import EventSchema.Catalog.Inclusion
import EventSchema.Definition
import EventSchema.Json.Merge
import EventSchema.ScalarType

/-!
# Reading a catalog

From the resolved items of a schema tree to definitions. An attribute of an entity is the
dictionary's attribute with the entity's own details merged over it; its type, its target and its
enumeration are then read off. When the schema knows dates and times, every timestamp gets an
optional companion that holds the same moment as text.
-/

namespace EventSchema.Catalog

/-! ### Enumerations and notices -/

/-- The numbered value of an enumeration entry. Entries whose key is no integer or that are no
objects are passed over. -/
def enumValue? (key : String) (detail : Json) : Except ShapeError (Option EnumValue) :=
  match Text.readInteger? key, detail with
  | some value, .obj ms => do
    let description ← ((Entries.get? ms "description").getD (.str "")).plainText
    .ok (some ⟨value, (Entries.get? ms "caption").getD (.str (toString value)), description⟩)
  | _, _ => .ok none

/-- The numbered values of enumeration entries, in their order. -/
def enumValues : List (String × Json) → Except ShapeError (List EnumValue)
  | [] => .ok []
  | (key, detail) :: rest => do
    let first ← enumValue? key detail
    let others ← enumValues rest
    .ok (first.toList ++ others)

/-- The numbered values of an enumeration in ascending order, none if there are none. Entries with
equal numbers stay in their order. -/
def readEnum (v : Json) : Except ShapeError (Option (List EnumValue)) :=
  match v with
  | .obj members => do
    let values ← enumValues members
    let sorted := values.mergeSort fun a b => decide (a.value ≤ b.value)
    .ok (if sorted.isEmpty then none else some sorted)
  | _ => .ok none

/-- The notice that something is deprecated, none if it is not. -/
def readDeprecation (v : Json) : Except ShapeError (Option String) :=
  if !v.isGiven then .ok none
  else
    match v with
    | .obj members => do
      let message ← ((Entries.get? members "message").getD (.str "")).plainText
      let message := if message = "" then "Deprecated." else message
      let since := (Entries.get? members "since").getD .null
      .ok (some (if since.isGiven then s!"{message} (since {since.display})" else message))
    | _ => .ok (some "Deprecated.")

/-! ### Attributes -/

/-- What attributes of entities are read against. -/
structure Dictionary where
  /-- The attributes of the dictionary. -/
  attributes : Entries Json
  /-- The types of the dictionary. -/
  types : Entries Json
  /-- The names of the objects. -/
  objects : List String
  /-- Whether timestamps have companions. -/
  hasDatetime : Bool

/-- The type name of attributes that refer to objects. -/
def referenceType : String := "object_t"

/-- A failure of reading that is due to the shape of a value. -/
def ofShape {α : Type} (r : Except ShapeError α) : Except CatalogError α :=
  r.mapError .shape

/-- The scalar type and the target of an attribute. A type that is neither listed nor written like a
scalar type is the name of an object. -/
def readType (dict : Dictionary) (place name : String) (details : Entries Json) :
    Except CatalogError (String × Json) :=
  match (details.get? "type").getD .null with
  | .str type =>
    if type = referenceType then
      let target := (details.get? "object_type").getD .null
      if target.isGiven then .ok (referenceType, target) else .error (.targetMissing place name)
    else if dict.types.has type || ScalarType.isScalarName type then .ok (type, .null)
    else .ok (referenceType, .str type)
  | _ => .error (.typeMissing place name)

/-- The object that a target names, which must be defined. -/
def readTarget (dict : Dictionary) (place name : String) (target : Json) :
    Except CatalogError (Option String) :=
  if target.isNull then .ok none
  else do
    match ← ofShape target.lookupName with
    | some object =>
      if dict.objects.contains object then .ok (some object)
      else .error (.targetUndefined place name target)
    | none => .error (.targetUndefined place name target)

/-- An attribute with the merged details. An attribute of a profile is never required, since
profiles are taken up by choice. -/
def readAttribute (dict : Dictionary) (place name : String) (value : Json) :
    Except CatalogError Attribute := do
  let .obj own := value | .error (.attributeNotObject place name value)
  let some standing := dict.attributes.get? name | .error (.attributeUndefined place name)
  let details ← ofShape ((standing.merge value).membersFor "get")
  let detail (key : String) (default : Json) : Json := (Entries.get? details key).getD default
  let (scalarType, target) ← readType dict place name details
  let target ← readTarget dict place name target
  let profile := detail "profile" .null
  let requirement := (detail "requirement" .null).orElse (.str Attribute.optionalWord)
  let description ← ofShape (detail "description" (.str "")).plainText
  let enumValues ← ofShape (readEnum (detail "enum" .null))
  let deprecation ← ofShape (readDeprecation (detail "@deprecated" .null))
  .ok {
    name := name
    scalarType := scalarType
    target := target
    isArray := match detail "is_array" .null with
      | .bool true => true
      | _ => false
    requirement := if profile.isGiven then .str Attribute.optionalWord else requirement
    caption := detail "caption" (.str "")
    description := description
    sibling := detail "sibling" .null
    enumValues := enumValues
    deprecation := deprecation
    profile := profile
    overrides := NameSet.ofList (Entries.names own) }

/-- The profile whose attributes hold moments as text. -/
def datetimeProfile : String := "datetime"

/-- The type of attributes that hold moments as text. -/
def datetimeType : String := "datetime_t"

/-- The companion of a timestamp. -/
def companion (a : Attribute) : Attribute where
  name := a.name ++ "_dt"
  scalarType := datetimeType
  target := none
  isArray := a.isArray
  requirement := .str Attribute.optionalWord
  caption := a.caption
  description := a.description
  sibling := .null
  enumValues := none
  deprecation := none
  profile := .str datetimeProfile
  overrides := .empty

/-- Add the companions of timestamps behind all attributes, unless there are attributes of their
names. -/
def addCompanions (attributes : Table Attribute) : Table Attribute :=
  (attributes.values.filter fun a => a.scalarType = "timestamp_t").foldl
    (fun table a => table.putNew (companion a).name (companion a)) attributes

/-- Read attributes one after another. -/
def readAttributes (dict : Dictionary) (place : String) (read : Table Attribute) :
    List (String × Json) → Except CatalogError (Table Attribute)
  | [] => .ok read
  | (name, value) :: rest => do
    let a ← readAttribute dict place name value
    readAttributes dict place (read.put name a) rest

/-! ### Entities -/

/-- Whether an event class only serves as an ancestor: it has no identifier and is not the base of
all event classes. -/
def isHiddenEvent (name : String) (members : Entries Json) : Bool :=
  name ≠ "base_event" && !members.has "uid"

/-- The question of `isHiddenEvent`, asked about any value in place of the members. -/
def isHiddenEventValue (name : String) (v : Json) : Except ShapeError Bool :=
  if name = "base_event" then .ok false else (v.mentions "uid").map fun found => !found

/-- Whether an object only serves as an ancestor: its name starts with an underscore. -/
def isHiddenObject (name : String) : Bool := name.startsWith "_"

/-- Whether an entity says that it is closed. -/
def readClosed (place : String) (members : Entries Json) : Except CatalogError (Option Bool) :=
  match (members.get? "closed").getD .null with
  | .null => .ok none
  | .bool b => .ok (some b)
  | found => .error (.closedNotBoolean place found)

/-- The ancestor of an entity. -/
def readAncestor (place : String) (members : Entries Json) : Except CatalogError (Option String) :=
  match (members.get? "extends").getD .null with
  | .null => .ok none
  | .str name => .ok (some name)
  | found => .error (.extendsNotText place found)

/-- The identifier of an event class. -/
def readUid (place : String) (members : Entries Json) : Except CatalogError (Option Uid) :=
  match (members.get? "uid").getD .null with
  | .null => .ok none
  | found =>
    match Uid.ofJson? found with
    | some uid => .ok (some uid)
    | none => .error (.uidNotInteger place found)

/-- The definition of an item. -/
def readDefinition (dict : Dictionary) (kind : EntityKind) (item : ResolvedItem) :
    Except CatalogError Definition := do
  let place := s!"{kind.text} \"{item.name}\""
  let closed ← readClosed place item.members
  let ancestor ← readAncestor place item.members
  let attributes ← readAttributes dict place .empty item.attributes
  let uid ←
    match kind with
    | .event => readUid place item.members
    | .object => .ok none
  let description ← ofShape ((item.members.get? "description").getD (.str "")).plainText
  .ok {
    kind := kind
    name := item.name
    ancestor := ancestor
    caption := captionOf item.members
    description := description
    attributes := if dict.hasDatetime then addCompanions attributes else attributes
    closed := closed
    category := match kind with
      | .event => (item.members.get? "category").getD .null
      | .object => .null
    uid := uid
    isHidden := match kind with
      | .event => isHiddenEvent item.name item.members
      | .object => isHiddenObject item.name }

/-- Read definitions one after another. -/
def readDefinitions (dict : Dictionary) (kind : EntityKind) (read : Table Definition) :
    List ResolvedItem → Except CatalogError (Table Definition)
  | [] => .ok read
  | item :: rest => do
    let d ← readDefinition dict kind item
    readDefinitions dict kind (read.put item.name d) rest

/-! ### The parts of a schema tree -/

/-- The members of a part of the schema that must be an object. -/
def objectAt (place : String) (v : Json) : Except CatalogError (Entries Json) :=
  match v with
  | .obj members => .ok members
  | found => .error (.objectExpected place found)

/-- A member of a part of the schema that must be an object, empty if it is missing. -/
def partOf (members : Entries Json) (key place : String) : Except CatalogError (Entries Json) :=
  objectAt place ((members.get? key).getD (.obj []))

/-- The version that a schema tree states. -/
def readVersion (tree : FileTree) (schema : Path) : Except CatalogError Json :=
  let path := schema.child "version.json"
  match readObject tree path with
  | .ok members =>
    match members.get? "version" with
    | some version => .ok version
    | none => .error (.versionMissing path)
  | .error (.file e) =>
    if e.fault = .noEntry then .error (.versionFileMissing path) else .error (.file e)
  | .error e => .error e

/-- Read categories one after another. -/
def readCategoriesFrom (read : Table Uid) :
    List (String × Json) → Except CatalogError (Table Uid)
  | [] => .ok read
  | (key, detail) :: rest => do
    let members ← objectAt s!"category \"{key}\"" detail
    let found := (members.get? "uid").getD .null
    match Uid.ofJson? found with
    | some uid => readCategoriesFrom (read.put key uid) rest
    | none => .error (.categoryUid key found)

/-- The identifiers of the categories. -/
def readCategories (members : Entries Json) : Except CatalogError (Table Uid) := do
  readCategoriesFrom .empty (← partOf members "attributes" "categories attributes")

/-- Read enumerations of the dictionary one after another. -/
def readSharedEnumsFrom (read : Table SharedEnum) :
    List (String × Json) → Except CatalogError (Table SharedEnum)
  | [] => .ok read
  | (name, value) :: rest => do
    if name.endsWith "_id" then
      let members ← ofShape (value.membersFor "get")
      match ← ofShape (readEnum ((members.get? "enum").getD .null)) with
      | some values =>
        readSharedEnumsFrom (read.put name ⟨name, captionOf members, values⟩) rest
      | none => readSharedEnumsFrom read rest
    else readSharedEnumsFrom read rest

/-- The enumerations of the dictionary, in ascending order of their attributes. -/
def readSharedEnums (attributes : Entries Json) : Except CatalogError (Table SharedEnum) :=
  readSharedEnumsFrom .empty (attributes.mergeSort fun a b => decide (a.1 ≤ b.1))

/-- Whether timestamps have companions: if the schema has both a profile and a type for moments as
text. It must have both or neither. -/
def readDatetime (profiles : List Item) (types : Entries Json) : Except CatalogError Bool :=
  match profiles.any fun item => item.name = datetimeProfile, types.has datetimeType with
  | true, true => .ok true
  | true, false => .error .datetimeTypeMissing
  | false, true => .error .datetimeProfileMissing
  | false, false => .ok false

/-- What is reported when timestamps have companions. -/
def datetimeNotice : String :=
  "Datetime siblings of attributes with the \"timestamp_t\" type will be added because the schema"
    ++ " defines the \"datetime\" profile and the \"datetime_t\" dictionary type."

/-- Read the catalog of the schema tree at a path. -/
def read (tree : FileTree) (schema : Path) : Reporting CatalogError Catalog := do
  let check {α : Type} (r : Except CatalogError α) : Reporting CatalogError α :=
    Reporting.ofExcept r
  unless ← check ((tree.isDirectory schema).mapError .file) do
    throw (.treeMissing schema)
  Reporting.report .info s!"Reading schema: {schema.text}"
  let version ← check (readVersion tree schema)
  let categories ← check (readObject tree (schema.child "categories.json"))
  let dictionary ← check (readObject tree (schema.child "dictionary.json"))
  let attributes ← check (partOf dictionary "attributes" "dictionary attributes")
  let types ← check (partOf dictionary "types" "dictionary types")
  let types ← check (partOf types "attributes" "dictionary types attributes")
  let events ← check (readItems tree schema "events")
  let objects ← check (readItems tree schema "objects")
  let profiles ← check (readItems tree schema "profiles")
  let (events, objects) ← resolveIncludes tree schema profiles events objects
  let hasDatetime ← check (readDatetime profiles types)
  if hasDatetime then
    Reporting.report .info datetimeNotice
  let dict : Dictionary := ⟨attributes, types, objects.map (·.name), hasDatetime⟩
  let objects ← check (readDefinitions dict .object .empty objects)
  let events ← check (readDefinitions dict .event .empty events)
  Reporting.report .info (s!"Read {objects.size} objects, {events.size} event classes, and "
    ++ s!"{attributes.length} dictionary attributes")
  let categories ← check (readCategories categories)
  let enums ← check (readSharedEnums attributes)
  pure ⟨version, categories, objects, events, enums⟩

end EventSchema.Catalog
