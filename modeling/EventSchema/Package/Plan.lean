import EventSchema.Deferral
import EventSchema.Package.EnumModel
import EventSchema.Package.Queue

/-!
# The plan of a package

What goes into the package of one version, settled before anything is written: the event classes
that are not hidden, the objects that are not hidden or that something planned refers to, and the
enumerations. Names must not collide, and the objects must have an order in which each comes after
the ones it needs at once; of all such orders the alphabetically first is taken.
-/

namespace EventSchema.Package

/-- Why a package cannot be planned. -/
inductive PlanError where
  /-- Something refers to an object that is not defined. -/
  | objectUndefined (name : String)
  /-- Two enumerations would have one module. -/
  | enumCollision (first second module : String)
  /-- Two entities would have one module. -/
  | moduleCollision (kind : EntityKind) (first second place : String)
  /-- A class name is used by generated modules for something else. -/
  | nameReserved (kind : EntityKind) (name typeName : String)
  /-- Two entities would be exported under one name. -/
  | exportCollision (kind : EntityKind) (first second place : String)
  /-- Objects still need each other in circles. -/
  | circlesLeft (components : List (List String))
  /-- No order of the objects was found. -/
  | orderIncomplete

namespace PlanError

/-- The message of a failure. -/
def message : PlanError → String
  | .objectUndefined name => s!"Reference to undefined object \"{name}\""
  | .enumCollision first second module =>
    s!"Enums \"{first}\" and \"{second}\" would both be emitted as module \"enums.{module}\""
  | .moduleCollision kind first second place =>
    s!"{kind.text} \"{first}\" and \"{second}\" would both be emitted as module \"{place}\""
  | .nameReserved kind name typeName =>
    s!"{kind.text} \"{name}\" type name \"{typeName}\" clashes with a name " ++
      "used by generated modules"
  | .exportCollision kind first second place =>
    s!"{kind.text} \"{first}\" and \"{second}\" would both be exported as \"{place}\""
  | .circlesLeft components =>
    "Circular references left after deferring references: "
      ++ "; ".intercalate (components.map fun c => ", ".intercalate c)
  | .orderIncomplete => "LOGIC BUG: eager object graph is not acyclic"

end PlanError

/-- The sub-package of objects. -/
def objectsPackage : String := "objects"

/-- The sub-package of event classes. -/
def eventsPackage : String := "events"

/-- The sub-package of enumerations. -/
def enumsPackage : String := "enums"

/-- Names that generated modules use for their own purposes. -/
def reservedNames : List String :=
  ["Any", "ConfigDict", "DEFERRED_REFS", "Field", "JsonValue", "Literal", "OcsfEvent", "OcsfObject",
    "Optional", "Required", "SIBLING_PAIRS", "SiblingPair", "StrictBool", "StrictFloat",
    "StrictInt", "StrictStr", "TYPE_CHECKING", "TypedDict", "UID_CONFIG", "UidConfig",
    "annotations"]

/-- The package name of a version, which must be a text. -/
def slugOf (version : Json) : Except ShapeError String :=
  match version with
  | .str s => .ok (Identifier.versionSlug s)
  | v => .error (.membersExpected v "split")

/-- The class name of the plain dictionary form of an entity. -/
def dictName (e : Entity) : String := e.typeName ++ "Dict"

/-- The module that holds an entity. -/
def moduleOf (e : Entity) : String := Identifier.moduleName e.typeName

/-- What goes into the package of one version. -/
structure Plan where
  /-- The schema. -/
  schema : Schema
  /-- The references that are bound late. -/
  deferral : Deferral
  /-- The objects, ascending. -/
  objects : Table Entity
  /-- The event classes, ascending. -/
  events : Table Entity
  /-- The enumerations by module, ascending. -/
  enums : Table EnumModel
  /-- The objects, each after those that it needs at once. -/
  order : List String
  deriving Inhabited

/-! ### What is planned -/

/-- The event classes that are not hidden. -/
def plannedEvents (schema : Schema) : Table Entity :=
  schema.events.sorted.filter fun e => !e.2.isHidden

/-- The names that are planned by themselves: objects that are not hidden, and what event classes
refer to. The last one is visited first. -/
def plannedRoots (schema : Schema) (events : Table Entity) : List String :=
  (schema.objects.sorted.filter fun e => !e.2.isHidden).names ++
    events.values.flatMap Entity.references

/-- Visit names, and what the objects of these names refer to. The names that are planned are listed
in the order of their visits. -/
def visitReferences (objects : Table Entity) :
    (fuel : Nat) → (planned pending : List String) → Except PlanError (List String)
  | 0, planned, _ => .ok planned
  | _, planned, [] => .ok planned
  | fuel + 1, planned, name :: pending =>
    if planned.contains name then visitReferences objects fuel planned pending
    else
      match objects.get? name with
      | some e => visitReferences objects fuel (planned ++ [name]) (e.references.reverse ++ pending)
      | none => .error (.objectUndefined name)

/-- The objects that are planned. Every object's references are put on the list of what is to be
visited once, so the number of all references bounds the visits. -/
def plannedObjects (schema : Schema) (events : Table Entity) : Except PlanError (Table Entity) := do
  let roots := plannedRoots schema events
  let fuel := roots.length + (schema.objects.values.flatMap Entity.references).length
  let planned ← visitReferences schema.objects fuel [] roots.reverse
  .ok (schema.objects.sorted.filter fun e => planned.contains e.1)

/-- Add enumerations under their modules, one after another. -/
def addEnums (enums : Table EnumModel) : List EnumModel → Except PlanError (Table EnumModel)
  | [] => .ok enums
  | e :: rest =>
    match enums.get? e.moduleName with
    | some standing => .error (.enumCollision standing.typeName e.typeName e.moduleName)
    | none => addEnums (enums.put e.moduleName e) rest

/-- The enumerations that are planned. -/
def plannedEnums (schema : Schema) (events : Table Entity) :
    Except PlanError (Table EnumModel) := do
  let shared := schema.enums.sorted.values.map EnumModel.ofShared
  let activities := events.values.filterMap EnumModel.activities?
  let enums ← addEnums .empty (shared ++ activities)
  .ok enums.sorted

/-! ### Names -/

/-- The names that are taken in a sub-package, with the entities that took them. -/
structure TakenNames where
  /-- Modules. -/
  modules : Table String
  /-- Exported class names. -/
  exported : Table String

/-- Take the class names of an entity. -/
def takeExports (folder : String) (e : Entity) (taken : TakenNames) :
    List String → Except PlanError TakenNames
  | [] => .ok taken
  | typeName :: rest =>
    if reservedNames.contains typeName then .error (.nameReserved e.kind e.name typeName)
    else
      match taken.exported.get? typeName with
      | some first => .error (.exportCollision e.kind first e.name s!"{folder}.{typeName}")
      | none =>
        takeExports folder e { taken with exported := taken.exported.put typeName e.name } rest

/-- Take the names of entities, one after another. -/
def takeNames (folder : String) (taken : TakenNames) : List Entity → Except PlanError TakenNames
  | [] => .ok taken
  | e :: rest =>
    match taken.modules.get? (moduleOf e) with
    | some first => .error (.moduleCollision e.kind first e.name s!"{folder}.{moduleOf e}")
    | none => do
      let taken := { taken with modules := taken.modules.put (moduleOf e) e.name }
      takeNames folder (← takeExports folder e taken [e.typeName, dictName e]) rest

/-- Check that the names of a sub-package can be told apart. -/
def checkNames (folder : String) (entities : Table Entity) : Except PlanError Unit := do
  let _ ← takeNames folder ⟨.empty, .empty⟩ entities.values
  .ok ()

/-! ### The order of objects -/

/-- The objects that an object needs at once: all that it refers to except itself and the deferred
ones. -/
def neededAtOnce (graph : ReferenceGraph) (deferral : Deferral) (name : String) : List String :=
  (((graph.outgoing? name).getD []).map Reference.target).filter fun target =>
    target ≠ name && !deferral.isDeferred name target

/-- The objects, each after those that it needs at once. -/
def objectOrder (objects : Table Entity) (deferral : Deferral) : Except PlanError (List String) :=
  let graph := ReferenceGraph.ofObjects objects
  match graph.cyclesWithout deferral.pairs with
  | [] =>
    let start := Queue.start (neededAtOnce graph deferral) graph.nodes
    let order := start.order graph.nodes.length
    if order.length = graph.nodes.length then .ok order else .error .orderIncomplete
  | components => .error (.circlesLeft components)

/-- Plan the package of a schema. -/
def plan (schema : Schema) (deferral : Deferral) : Except PlanError Plan := do
  let events := plannedEvents schema
  let objects ← plannedObjects schema events
  let enums ← plannedEnums schema events
  checkNames objectsPackage objects
  checkNames eventsPackage events
  let order ← objectOrder objects deferral
  .ok ⟨schema, deferral, objects, events, enums, order⟩

end EventSchema.Package
