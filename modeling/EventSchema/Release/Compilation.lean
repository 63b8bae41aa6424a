import EventSchema.Catalog.Reading
import EventSchema.Package.Placement
import EventSchema.Release.Retrieval

/-!
# Compiling a version

A schema tree is read, inheritance is worked out, references are deferred where objects refer to
each other in circles, and the package is emitted. The package gets the version that is asked for,
also when the tree states another.
-/

namespace EventSchema

/-- Why a version is not compiled. -/
inductive CompileError where
  /-- The compilation was run before. -/
  | alreadyCompiled
  /-- The schema tree cannot be read. -/
  | catalog (e : CatalogError)
  /-- Inheritance cannot be worked out. -/
  | lineage (e : LineageError)
  /-- Circular references cannot be broken. -/
  | deferral (e : DeferralError)
  /-- The package cannot be emitted. -/
  | emit (e : Package.EmitError)

namespace CompileError

/-- The message of a failure. -/
def message : CompileError → String
  | .alreadyCompiled => "Schema already compiled (compile can only be run once)"
  | .catalog e => e.message
  | .lineage e => e.message
  | .deferral e => e.message
  | .emit e => e.message

/-- Whether a failure concerns one version alone, so that others may still be compiled. Failed
checks of the program itself concern all. -/
def isOfVersion : CompileError → Bool
  | .alreadyCompiled => true
  | .catalog (.shape e) => !e.isMembersExpected
  | .catalog _ => true
  | .lineage (.uidOutOfRange _) => false
  | .lineage (.shape e) => !e.isMembersExpected
  | .lineage _ => true
  | .deferral (.unbreakable _) => true
  | .deferral _ => false
  | .emit (.plan .orderIncomplete) => false
  | .emit (.plan _) => true
  | .emit (.render (.objectUnplanned _)) => false
  | .emit (.render (.shape e)) => !e.isMembersExpected
  | .emit (.version e) => !e.isMembersExpected
  | .emit (.file _) => true

end CompileError

/-- What came of a compilation. -/
structure Compiled where
  /-- The directory of the package. -/
  path : Path
  /-- The number of warnings. -/
  warnings : Nat
  deriving Inhabited

/-- What is reported when a tree states another version. -/
def versionNotice (source : Source) (stated : Json) : String :=
  s!"Schema at {source.path.text} declares version {stated.display}, but is compiled as "
    ++ source.version

/-- Read a catalog, and count the warnings on the way. -/
def readCatalog (path : Path) : Action CompileError (Catalog × Nat) := do
  let w ← get
  let before := w.journal.warnings
  let catalog ← Action.ofReporting ((Catalog.read w.tree path).mapError .catalog)
  let after := (← get).journal.warnings
  pure (catalog, after - before)

/-- Emit the package of a catalog. -/
def emitCatalog (catalog : Catalog) (output : Path) : Action CompileError Path := do
  let schema ← Action.ofReporting (catalog.resolve.mapError .lineage)
  let deferral ← Action.ofReporting
    ((ReferenceGraph.ofObjects schema.objects).defer.mapError .deferral)
  Action.mapError .emit (Package.emit schema deferral output)

/-- Compile the schema tree of a version. -/
def compile (output : Path) (source : Source) : Action CompileError Compiled := do
  Action.report .info s!"Compiling schema {source.version}"
  let (catalog, warnings) ← readCatalog source.path
  let agrees := catalog.version.isText source.version
  unless agrees do
    Action.report .warning (versionNotice source catalog.version)
  let warnings := if agrees then warnings else warnings + 1
  let path ← emitCatalog { catalog with version := .str source.version } output
  if warnings = 0 then
    Action.report .info s!"Compile of {source.version} completed successfully"
  else
    Action.report .warning s!"Compile of {source.version} completed with {warnings} warnings(s)"
  pure ⟨path, warnings⟩

/-! ### Compilations that run once -/

/-- A compilation that is to be run at most once. -/
structure Compilation where
  /-- The schema tree. -/
  source : Source
  /-- The directory of the packages. -/
  output : Path
  /-- Whether it was run. -/
  isRun : Bool
  deriving Inhabited

namespace Compilation

/-- A compilation that was not run yet. -/
def new (source : Source) (output : Path) : Compilation := ⟨source, output, false⟩

/-- Run a compilation, unless it was run before. -/
def run (c : Compilation) : Action CompileError Compiled :=
  if c.isRun then throw .alreadyCompiled else compile c.output c.source

/-- The compilation after it was run. -/
def spent (c : Compilation) : Compilation := { c with isRun := true }

end Compilation

end EventSchema
