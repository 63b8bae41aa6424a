import EventSchema.Package.Files
import EventSchema.Workspace

/-!
# Placing packages

A package is written into a staging directory next to its place first. Only when all its files are
there does the staging directory take the place; what stood there before is moved aside and then
removed. When something fails, the staging directory is removed again.

Next to the packages there may be a module that is an alias of one of them.
-/

namespace EventSchema.Package

/-- Why a package is not emitted. -/
inductive EmitError where
  /-- It cannot be planned. -/
  | plan (e : PlanError)
  /-- Its modules cannot be written. -/
  | render (e : RenderError)
  /-- Its version is no text. -/
  | version (e : ShapeError)
  /-- The file system refuses an operation. -/
  | file (e : FileError)

namespace EmitError

/-- The message of a failure. -/
def message : EmitError → String
  | .plan e => e.message
  | .render e => e.message
  | .version e => e.message
  | .file e => e.message

end EmitError

/-! ### Packages -/

/-- Write files below a directory. -/
def writeFiles (root : Path) (files : Table String) : Action FileError Unit :=
  files.sorted.entries.forM fun f => do
    let path := root.joinText f.1
    Action.ensureDirs path.parent
    Action.edit (FileTree.writeFile path f.2)

/-- Let a directory take a place, and remove what stood there. -/
def replaceDir (staging target : Path) : Action FileError Unit := do
  if ← Action.look fun t => t.pathExists target then
    let old ← Action.makeTemporary target.parent s!".{target.name}-old-"
    Action.edit (FileTree.removeDir old)
    Action.edit (FileTree.move target old)
    Action.edit (FileTree.move staging target)
    Action.edit (FileTree.removeTree old)
  else
    Action.edit (FileTree.move staging target)

/-- Place a package with the given files below a directory that is there. -/
def placeFiles (output : Path) (slug : String) (files : Table String) : Action FileError Path := do
  let target := output.joinText slug
  let staging ← Action.makeTemporary output s!".{slug}-staging-"
  Action.onFailure (do
      writeFiles staging files
      replaceDir staging target)
    (Action.discard staging)
  pure target

/-- What is reported about a package. -/
def emittedNotice (p : Plan) (target : Path) : String :=
  s!"Emitted {p.objects.size} objects, {p.events.size} event classes, and {p.enums.size} enums to "
    ++ target.text

/-- Emit the package of a schema below a directory. Nothing is written unless all of it can be. -/
def emit (schema : Schema) (deferral : Deferral) (output : Path) : Action EmitError Path := do
  let p ← Action.ofExcept ((plan schema deferral).mapError .plan)
  let files ← Action.ofExcept ((filesOf p).mapError .render)
  Action.mapError .file (Action.ensureDirs output)
  let slug ← Action.ofExcept ((slugOf schema.version).mapError .version)
  let target ← Action.mapError .file (placeFiles output slug files)
  Action.report .info (emittedNotice p target)
  pure target

/-! ### The alias -/

/-- The text of the root of all packages. -/
def outputInitText : String := "\"\"\"Generated OCSF models.\"\"\"\n"

/-- The text of the alias of a version. -/
def latestText (version : String) : String :=
  joinLines (
    [banner] ++ docBlock s!"Alias of the newest supported OCSF version, {version}." ""
      ++ ["",
        s!"from .{Identifier.versionSlug version} import {versionName}, enums, events, objects", ""]
      ++ exportLines [versionName, enumsPackage, eventsPackage, objectsPackage])

/-- Write the alias of a version, and the root of all packages if it is missing. -/
def emitLatest (output : Path) (version : String) : Action FileError Path := do
  let init := output.child initFile
  unless ← Action.look fun t => t.pathExists init do
    Action.edit (FileTree.writeFile init outputInitText)
  let latest := output.child "latest.py"
  Action.edit (FileTree.writeFile latest (latestText version))
  Action.report .info s!"Emitted {latest.text} aliasing {Identifier.versionSlug version}"
  pure latest

end EventSchema.Package
