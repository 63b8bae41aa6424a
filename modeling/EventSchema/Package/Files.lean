import EventSchema.Package.EntityModule

/-!
# The files of a package

Objects, event classes and enumerations each have a sub-package with one module per entity and a
*barrel*, the file that exports their names again. A barrel is described by its imports (`Barrel`),
and what it exports is read off them (`Barrel.exported`). The root of the package exports the
sub-packages and the version.

`filesOf` gives the texts of all files by their paths inside the package.
-/

namespace EventSchema.Package

/-- The file that makes a directory a package. -/
def initFile : String := "__init__.py"

/-- The file of a module in a sub-package. -/
def modulePath (folder module : String) : String := s!"{folder}/{module}.py"

/-- The lines of a list of exported names. -/
def exportLines (names : List String) : List String :=
  ["__all__ = ["] ++ names.map (fun name => s!"    {Text.literal name},") ++ ["]", ""]

/-! ### Barrels -/

/-- The file that exports the names of a sub-package. -/
structure Barrel where
  /-- What the sub-package holds. -/
  description : String
  /-- The modules with the names that are imported from them. -/
  imports : List (String × List String)

namespace Barrel

/-- The exported names, ascending. -/
def exported (b : Barrel) : List String :=
  (b.imports.flatMap Prod.snd).mergeSort fun m n => decide (m ≤ n)

/-- The text of the file. -/
def text (b : Barrel) : String :=
  joinLines (
    [banner] ++ docBlock b.description "" ++ [""]
      ++ b.imports.map (fun i => importLine ("." ++ i.1) i.2) ++ [""]
      ++ exportLines b.exported)

/-- The imports of an entity. -/
def entityImport (e : Entity) : String × List String := (moduleOf e, [e.typeName, dictName e])

/-- The imports of an enumeration. -/
def enumImport (e : String × EnumModel) : String × List String :=
  (e.1, [e.2.typeName, e.2.labelsName])

/-- The barrel of the objects. Hidden objects have modules but are not exported. -/
def ofObjects (p : Plan) : Barrel :=
  ⟨s!"OCSF {p.schema.version.display} objects.",
    ((p.order.filterMap p.objects.get?).filter fun e => !e.isHidden).map entityImport⟩

/-- The barrel of the event classes. -/
def ofEvents (p : Plan) : Barrel :=
  ⟨s!"OCSF {p.schema.version.display} event classes.", p.events.values.map entityImport⟩

/-- The barrel of the enumerations. -/
def ofEnums (p : Plan) : Barrel :=
  ⟨s!"OCSF {p.schema.version.display} enums.", p.enums.entries.map enumImport⟩

end Barrel

/-! ### The root of the package -/

/-- The name under which a package exports its version. -/
def versionName : String := "OCSF_VERSION"

/-- The text of the root of the package. -/
def rootText (version : Json) : String :=
  joinLines (
    [banner]
      ++ docBlock (s!"OCSF {version.display} models.\n\nObjects and event classes can share a"
        ++ " name, so import them from their namespace, for example:"
        ++ s!" from .{eventsPackage} import FileActivity") ""
      ++ ["", s!"from . import {enumsPackage}, {eventsPackage}, {objectsPackage}", "",
        s!"{versionName} = {version.document Json.codeLayout}", ""]
      ++ exportLines [versionName, enumsPackage, eventsPackage, objectsPackage])

/-! ### All files -/

/-- The files of entities. -/
def entityFiles (p : Plan) (folder : String) (entities : List Entity) :
    Except RenderError (List (String × String)) :=
  entities.mapM fun e => do
    let m ← EntityModule.of p e
    .ok (modulePath folder (moduleOf e), m.text)

/-- The files of enumerations. -/
def enumFiles (p : Plan) : Except RenderError (List (String × String)) :=
  p.enums.entries.mapM fun e => do
    let text ← (e.2.moduleText p.schema.version).mapError .shape
    .ok (modulePath enumsPackage e.1, text)

/-- The text of every file of a package, by its path inside the package. -/
def filesOf (p : Plan) : Except RenderError (Table String) := do
  let objects ← entityFiles p objectsPackage (p.order.filterMap p.objects.get?)
  let events ← entityFiles p eventsPackage p.events.values
  let enums ← enumFiles p
  .ok (.ofList (
    objects ++ [(s!"{objectsPackage}/{initFile}", (Barrel.ofObjects p).text)]
      ++ events ++ [(s!"{eventsPackage}/{initFile}", (Barrel.ofEvents p).text)]
      ++ enums ++ [(s!"{enumsPackage}/{initFile}", (Barrel.ofEnums p).text)]
      ++ [(initFile, rootText p.schema.version)]))

end EventSchema.Package
