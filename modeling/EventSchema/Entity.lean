import EventSchema.Definition
import EventSchema.Journal
import EventSchema.Shape

/-!
# Entities

An entity is a definition together with what it takes from its ancestors. The *lineage* of a
definition is its chain of ancestors, root first; its attributes are those of the whole lineage,
each refined on the way down (`Attribute.refine`), and its category is that of its nearest member
that has one.

A lineage is walked with the names seen so far. A name that is seen twice ends the walk, so it makes
no more steps than there are definitions.
-/

namespace EventSchema

/-- An object or event class with all that it inherits. -/
structure Entity where
  /-- The kind. -/
  kind : EntityKind
  /-- The name. -/
  name : String
  /-- The caption. -/
  caption : Json
  /-- The plain description. -/
  description : String
  /-- The attributes, inherited ones included. -/
  attributes : Table Attribute
  /-- Whether unknown attributes are refused. -/
  closed : Bool
  /-- Whether it only serves as an ancestor. -/
  isHidden : Bool
  /-- The name of the ancestor that it extends. -/
  ancestor : Option String
  /-- The category of an event class. -/
  category : Option String
  /-- The identifier of the category. -/
  categoryUid : Uid
  /-- The identifier of an event class among all event classes. -/
  classUid : Int
  deriving Inhabited

namespace Entity

/-- The class name of an entity. -/
def typeName (e : Entity) : String := Identifier.typeName e.name

/-- The objects that the attributes refer to, in order of their first occurrence. -/
def references (e : Entity) : List String :=
  (e.attributes.values.filterMap Attribute.target?).foldl
    (fun names name => if names.contains name then names else names ++ [name]) []

end Entity

/-- What one version of a schema comes to once inheritance is worked out. -/
structure Schema where
  /-- The version. -/
  version : Json
  /-- The objects. -/
  objects : Table Entity
  /-- The event classes. -/
  events : Table Entity
  /-- The enumerations of the dictionary. -/
  enums : Table SharedEnum
  deriving Inhabited

/-! ### Lineages -/

/-- Why an entity cannot be worked out. -/
inductive LineageError where
  /-- The chain of ancestors comes back to a name. The names are those of the walk. -/
  | cyclic (walk : List String)
  /-- There is no definition of the name. -/
  | undefined (name : String)
  /-- A definition extends a name that is not defined. -/
  | ancestorUndefined (kind : EntityKind) (name ancestor : String)
  /-- An event class that is not hidden has no category. -/
  | categoryMissing (event : String)
  /-- An event class has a category that is not defined. -/
  | categoryUndefined (event : String) (category : Json)
  /-- The identifier of an event class is too large to be put behind that of its category. -/
  | uidOutOfRange (uid : Uid)
  /-- A value is of the wrong shape. -/
  | shape (e : ShapeError)

namespace LineageError

/-- The message of a failure. -/
def message : LineageError → String
  | .cyclic walk => "Cyclic \"extends\" chain: " ++ " -> ".intercalate walk
  | .undefined name => s!"Cannot resolve undefined entity \"{name}\""
  | .ancestorUndefined kind name ancestor =>
    s!"{kind.text} \"{name}\" extends undefined {kind.text} \"{ancestor}\""
  | .categoryMissing event => s!"Event class \"{event}\" has no category"
  | .categoryUndefined event category =>
    s!"Event class \"{event}\" uses undefined category \"{category.display}\""
  | .uidOutOfRange uid =>
    s!"class UID {uid.text} should be less than 1000 (not yet category UID scoped)"
  | .shape e => e.message

end LineageError

/-- Continue the lineage of `origin` with the definition of `name`. `walk` holds the names seen so
far and `below` the definitions that were found, nearest ancestor first. -/
def lineageFrom (definitions : Table Definition) (origin : String) :
    (fuel : Nat) → (walk : List String) → (below : List Definition) → (name : String) →
      Except LineageError (List Definition)
  | 0, walk, _, name => .error (.cyclic (walk ++ [name]))
  | fuel + 1, walk, below, name =>
    if walk.contains name then .error (.cyclic (walk ++ [name]))
    else
      match definitions.get? name, below with
      | none, [] => .error (.undefined origin)
      | none, child :: _ => .error (.ancestorUndefined child.kind child.name name)
      | some d, _ =>
        match d.ancestor with
        | none => .ok (d :: below)
        | some ancestor =>
          lineageFrom definitions origin fuel (walk ++ [name]) (d :: below) ancestor

/-- The lineage of a name, root first. -/
def lineage (definitions : Table Definition) (name : String) :
    Except LineageError (List Definition) :=
  lineageFrom definitions name (definitions.size + 1) [] [] name

/-! ### Attributes and categories along a lineage -/

/-- Put an attribute among those of the ancestors. -/
def refineAttribute (attributes : Table Attribute) (name : String) (a : Attribute) :
    Table Attribute :=
  match attributes.get? name with
  | some standing => attributes.put name (standing.refine a)
  | none => attributes.put name a

/-- Put the attributes of a definition among those of its ancestors. -/
def refineAttributes (attributes : Table Attribute) (d : Definition) : Table Attribute :=
  d.attributes.entries.foldl (fun t e => refineAttribute t e.1 e.2) attributes

/-- The attributes of a lineage. -/
def lineageAttributes (chain : List Definition) : Table Attribute :=
  chain.foldl refineAttributes .empty

/-- The category of the nearest member of a lineage that has one, null if none has. -/
def lineageCategory (chain : List Definition) : Json :=
  ((chain.reverse.map (·.category)).find? Json.isGiven).getD .null

/-- The category outside of all others. -/
def otherCategory : String := "other"

/-- The number of identifiers in a category. -/
def categorySize : Int := 1000

/-- The identifier of an event class among all event classes. -/
def scopedUid (categoryUid uid : Uid) : Except LineageError Int :=
  if uid.toInt < categorySize then .ok (categoryUid.toInt * categorySize + uid.toInt)
  else .error (.uidOutOfRange uid)

/-- The identifier of a category. -/
def categoryUid (categories : Table Uid) (event : String) (category : Json) :
    Except LineageError (String × Uid) :=
  if category.isText otherCategory then .ok (otherCategory, .number 0)
  else do
    match ← category.lookupName.mapError .shape with
    | some name =>
      match categories.get? name with
      | some uid => .ok (name, uid)
      | none => .error (.categoryUndefined event category)
    | none => .error (.categoryUndefined event category)

/-- The category of an event class, its identifier, and the identifier of the event class. A hidden
event class may be without a category. -/
def eventUids (categories : Table Uid) (chain : List Definition) (event : Definition) :
    Except LineageError (Option String × Uid × Int) :=
  let category := lineageCategory chain
  if category.isNull then
    if event.isHidden then .ok (none, .number 0, 0) else .error (.categoryMissing event.name)
  else do
    let (name, uid) ← categoryUid categories event.name category
    match event.uid with
    | none => .ok (some name, uid, 0)
    | some own => .ok (some name, uid, ← scopedUid uid own)

/-- The entity at the end of a lineage. -/
def Entity.ofLineage (categories : Table Uid) (chain : List Definition) (d : Definition) :
    Except LineageError Entity := do
  let (category, categoryUid, classUid) ←
    match d.kind with
    | .event => eventUids categories chain d
    | .object => .ok (none, .number 0, 0)
  .ok {
    kind := d.kind
    name := d.name
    caption := d.caption
    description := d.description
    attributes := lineageAttributes chain
    closed := d.closed.getD (d.kind = .event)
    isHidden := d.isHidden
    ancestor := d.ancestor
    category := category
    categoryUid := categoryUid
    classUid := classUid }

/-- The entity of a name. -/
def Entity.ofName (definitions : Table Definition) (categories : Table Uid) (name : String) :
    Except LineageError Entity := do
  let chain ← lineage definitions name
  match chain.getLast? with
  | some d => Entity.ofLineage categories chain d
  | none => .error (.undefined name)

/-! ### Whole catalogs -/

/-- What is reported about an entity that was worked out. -/
def resolvedNotice (definitions : Table Definition) (name : String) (e : Entity) : String :=
  let depth := match lineage definitions name with
    | .ok chain => chain.length - 1
    | .error _ => 0
  s!"Resolved {e.kind.text} \"{name}\" with {e.attributes.size} attributes"
    ++ s!" (inheritance depth {depth})"

/-- Entities that were worked out, by name. -/
abbrev ResolvedEntities := Table Entity

/-- The entity of a name, looked up among those that were worked out before. -/
def resolve (definitions : Table Definition) (categories : Table Uid) (known : ResolvedEntities)
    (name : String) : Reporting LineageError (Entity × ResolvedEntities) := do
  match known.get? name with
  | some e => pure (e, known)
  | none => do
    let e ← Reporting.ofExcept (Entity.ofName definitions categories name)
    Reporting.report .debug (resolvedNotice definitions name e)
    pure (e, known.put name e)

/-- The entities of some names, one after another. -/
def resolveNames (definitions : Table Definition) (categories : Table Uid)
    (known : ResolvedEntities) : List String → Reporting LineageError ResolvedEntities
  | [] => pure known
  | name :: rest => do
    let (_, known) ← resolve definitions categories known name
    resolveNames definitions categories known rest

/-- The entities of all definitions. -/
def resolveAll (definitions : Table Definition) (categories : Table Uid) :
    Reporting LineageError ResolvedEntities :=
  resolveNames definitions categories .empty definitions.names

/-- Work out the inheritance of a catalog. -/
def Catalog.resolve (c : Catalog) : Reporting LineageError Schema := do
  let objects ← resolveAll c.objects .empty
  let events ← resolveAll c.events c.categories
  Reporting.report .info
    (s!"Resolved inheritance of {objects.size} objects and {events.size} event classes")
  pure ⟨c.version, objects, events, c.enums⟩

end EventSchema
