import EventSchema.Catalog.Detail
import EventSchema.Catalog.Items
import EventSchema.Journal

/-!
# Includes

Items take over attributes and details from other files. An item includes files among its
attributes, mostly profiles: the attributes of each file are laid under the item's own. An attribute
includes a file among its details: the whole object of the file is laid under the details. In both
cases what the item says itself wins, and of several files the earlier wins.

Each file is read once for all items. Its annotations are details that its attributes get unless
they have them; objects among them are shared (see `Catalog.Detail`), so all items are resolved
before any of them is looked at.
-/

namespace EventSchema.Catalog

/-- The key under which files are included. -/
def includeKey : String := "$include"

/-- A file that items include. -/
structure IncludedFile where
  /-- The path. -/
  path : Path
  /-- The members of its object. -/
  members : Entries Json
  /-- Its annotations, objects among them shared; none if they are no object. -/
  annotations : Option (Entries Detail)

/-- What is known of included files, and the objects they share. -/
structure Includes where
  /-- The files that were read. -/
  files : List IncludedFile
  /-- The shared objects. -/
  pool : Pool

/-- A step that may read included files and report warnings. -/
abbrev InclusionM := StateT Includes (Reporting CatalogError)

namespace InclusionM

/-- Stop with a fault. -/
def fail {α : Type} (e : CatalogError) : InclusionM α := throw e

/-- Run a step on the pool. -/
def onPool {α : Type} (x : StateM Pool α) : InclusionM α :=
  modifyGet fun s => let (a, pool) := x.run s.pool; (a, { s with pool := pool })

/-- Warn. -/
def warn (text : String) : InclusionM Unit := StateT.lift (Reporting.report .warning text)

end InclusionM

open InclusionM

/-- Remember a file as included, its annotations shared from now on. -/
def remember (path : Path) (members : Entries Json) : InclusionM IncludedFile := do
  let annotated := (members.get? "annotations").getD (.obj [])
  let details ←
    match annotated with
    | .obj ms => do
      let shared ← onPool (Detail.shareMembers (Detail.ofMembers ms))
      pure (some shared)
    | _ => pure none
  let file : IncludedFile := ⟨path, members, details⟩
  modify fun s => { s with files := s.files ++ [file] }
  pure file

/-- The file at a path, read unless it is known. -/
def included (tree : FileTree) (place : String) (path : Path) : InclusionM IncludedFile := do
  match (← get).files.find? fun file => file.path = path with
  | some file => pure file
  | none =>
    match readObject tree path with
    | .ok members => remember path members
    | .error (.file e) =>
      if e.fault = .noEntry then fail (.includeMissing place path) else fail (.file e)
    | .error e => fail e

/-! ### Files among the attributes of an item -/

/-- Give an attribute of a file the annotations that it lacks. -/
def annotate (file : IncludedFile) (detail : Detail) : Except CatalogError Detail :=
  match file.annotations with
  | none =>
    .error (.shape (.membersExpected ((file.members.get? "annotations").getD .null) "items"))
  | some [] => .ok detail
  | some annotations =>
    match detail with
    | .own ms => .ok (.own (annotations.foldl (fun ms a => Entries.putNew ms a.1 a.2) ms))
    | .plain v => .error (.shape (.membersExpected v "setdefault"))
    | .shared cell => .ok (.shared cell)

/-- Mark an attribute as belonging to a profile. -/
def markProfile (profile : Json) (detail : Detail) : Except CatalogError Detail :=
  match detail with
  | .own ms => .ok (.own (Entries.put ms "profile" (Detail.ofJson profile)))
  | .plain v => .error (.shape (.detailsExpected v))
  | .shared cell => .ok (.shared cell)

/-- The name of the profile that a file is, null if it is none. -/
def profileOf (place : String) (file : IncludedFile) : Except CatalogError Json :=
  if ((file.members.get? "meta").getD .null).isText "profile" then
    match file.members.get? "name" with
    | some name => .ok name
    | none => .error (.profileNameMissing place)
  else .ok .null

/-- An attribute of a file as an item gets it: with annotations, under the item's own details or
marked with the profile. -/
def includeAttribute (file : IncludedFile) (profile : Json) (own : Entries Detail)
    (name : String) (value : Json) : InclusionM Detail := do
  let detail ← liftM (Reporting.ofExcept (annotate file (Detail.ofJson value)))
  match own.get? name with
  | some details => onPool (Detail.merge detail details)
  | none =>
    if profile.isGiven then liftM (Reporting.ofExcept (markProfile profile detail)) else pure detail

/-- Lay the attributes of a file under those of an item. -/
def includeFile (tree : FileTree) (place : String) (path : Path) (own : Entries Detail) :
    InclusionM (Entries Detail) := do
  let file ← included tree place path
  match file.members.get? "attributes" with
  | none =>
    warn s!"Include file suspiciously has no attributes: {path.text}"
    pure own
  | some (.obj attributes) =>
    let profile ← liftM (Reporting.ofExcept (profileOf place file))
    let taken ← attributes.mapM fun (name, value) => do
      pure (name, ← includeAttribute file profile own name value)
    pure (taken ++ own.filter fun entry => !Entries.has taken entry.1)
  | some found => fail (.objectExpected s!"{path.text} attributes" found)

/-- The paths that an item includes, as they are given. -/
def includedPaths (place : String) (value : Json) : Except CatalogError (List Json) :=
  match value with
  | .str s => .ok [.str s]
  | .arr items => .ok items
  | found => .error (.includesNotTexts place found)

/-- Lay the attributes of several files under those of an item, one file after another. -/
def includeFiles (tree : FileTree) (schema : Path) (place : String) :
    List Json → Entries Detail → InclusionM (Entries Detail)
  | [], own => pure own
  | .str s :: rest, own => do
    let own ← includeFile tree place (schema.joinText s) own
    includeFiles tree schema place rest own
  | found :: _, _ => fail (.shape (.pathExpected found))

/-! ### Files among the details of an attribute -/

/-- Lay the object of a file under the details of an attribute, if they include one. -/
def includeDetails (tree : FileTree) (schema : Path) (place name : String) (detail : Detail) :
    InclusionM Detail := do
  match detail with
  | .own ms =>
    match Entries.get? ms includeKey with
    | none => pure detail
    | some value =>
      let place := s!"{place} attributes.{name}.{includeKey}"
      match value.freeze (← get).pool with
      | .str s =>
        let file ← included tree place (schema.joinText s)
        onPool (Detail.merge (.own (Detail.ofMembers file.members))
          (.own (Entries.erase ms includeKey)))
      | found => fail (.includeNotText place found)
  | _ => pure detail

/-! ### Items -/

/-- The attributes of an item with all its includes resolved, objects that are shared still
shared. -/
def resolveItem (tree : FileTree) (schema : Path) (place : String) (item : Item) :
    InclusionM (Entries Detail) := do
  match (item.members.get? "attributes").getD (.obj []) with
  | .obj attributes =>
    let own := Detail.ofMembers attributes
    let own ←
      match Entries.get? attributes includeKey with
      | none => pure own
      | some value => do
        let place := s!"{place} attributes.{includeKey}"
        let paths ← liftM (Reporting.ofExcept (includedPaths place value))
        includeFiles tree schema place paths (Entries.erase own includeKey)
    own.mapM fun (name, detail) => do
      pure (name, ← includeDetails tree schema place name detail)
  | found => fail (.objectExpected s!"{place} attributes" found)

/-- An item whose includes are resolved: its name, its members, and its attributes. -/
structure ResolvedItem where
  /-- The name. -/
  name : String
  /-- The members of the item as it was read. -/
  members : Entries Json
  /-- The attributes. -/
  attributes : Entries Json

/-- Resolve the includes of event classes and then of objects. Profiles count as included files that
are known from the start. -/
def resolveIncludes (tree : FileTree) (schema : Path) (profiles events objects : List Item) :
    Reporting CatalogError (List ResolvedItem × List ResolvedItem) := do
  let resolve (word : String) (items : List Item) : InclusionM (List (Item × Entries Detail)) :=
    items.mapM fun item => do
      pure (item, ← resolveItem tree schema s!"{word} \"{item.name}\"" item)
  let all : InclusionM (List (Item × Entries Detail) × List (Item × Entries Detail)) := do
    profiles.forM fun item => discard (remember item.path item.members)
    pure (← resolve "class" events, ← resolve "object" objects)
  let ((events, objects), state) ← all.run ⟨[], []⟩
  let finish (found : Item × Entries Detail) : ResolvedItem :=
    ⟨found.1.name, found.1.members, Entries.mapValues (Detail.freeze state.pool) found.2⟩
  pure (events.map finish, objects.map finish)

end EventSchema.Catalog
