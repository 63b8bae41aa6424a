import EventSchema.Release.Compilation

/-!
# Generating packages

Several versions are retrieved and compiled in one run. A version that fails is reported and does
not keep the others from being generated. At the end the alias of the newest version is written, if
that version was generated.

Versions may be compiled side by side, each by itself. What they report is then lost, and all are
compiled whatever becomes of the others.
-/

namespace EventSchema

/-- What is to be generated. -/
structure GenerationPlan where
  /-- The versions. -/
  versions : List String
  /-- The directory of the schema trees. -/
  schemas : Path
  /-- The directory of the packages. -/
  output : Path
  /-- The version that gets the alias. -/
  latest : String
  /-- How many versions may be compiled side by side. -/
  jobs : Int
  /-- Whether missing schema trees are downloaded. -/
  download : Bool

/-- The versions that are generated if none are asked for. -/
def supportedVersions : List String := ["1.5.0", "1.6.0", "1.7.0"]

/-- The version that gets the alias if none is asked for. -/
def latestVersion : String := "1.7.0"

/-- The directory of the schema trees if none is asked for. -/
def defaultSchemas : Path := .ofString "schemas"

/-- The directory of the packages if none is asked for. -/
def defaultOutput : Path := .ofString "src/ocsf_models"

instance : Inhabited GenerationPlan :=
  ⟨⟨supportedVersions, defaultSchemas, defaultOutput, latestVersion, 1, true⟩⟩

/-- Why a run is given up. -/
inductive GenerationError where
  /-- A schema tree cannot be had, for a reason that concerns all versions. -/
  | retrieval (e : RetrievalError)
  /-- A version cannot be compiled, for a reason that concerns all versions. -/
  | compile (e : CompileError)
  /-- The alias cannot be written. -/
  | latest (e : FileError)

namespace GenerationError

/-- The message of a failure. -/
def message : GenerationError → String
  | .retrieval e => e.message
  | .compile e => e.message
  | .latest e => e.message

end GenerationError

/-! ### Compiling several versions -/

/-- Report what became of a version, and keep the failure if it failed. -/
def settleVersion (source : Source) (r : Except CompileError Compiled) :
    Action CompileError (List VersionFailure) :=
  match r with
  | .ok _ => pure []
  | .error e =>
    if e.isOfVersion then do
      Action.report .error s!"Schema {source.version} failed: {e.message}"
      pure [⟨source.version, e.message⟩]
    else throw e

/-- Compile versions one after another. -/
def compileInTurn (output : Path) : List Source → Action CompileError (List VersionFailure)
  | [] => pure []
  | source :: rest => do
    let r ← Action.attempt (compile output source)
    let failures ← settleVersion source r
    let others ← compileInTurn output rest
    pure (failures ++ others)

/-- Do something by itself: what it reports is lost, and its temporary directories do not count. -/
def Action.apart {ε α : Type} (x : Action ε α) : Action ε α :=
  ExceptT.mk fun w =>
    let (r, after) := x.run.run w
    (r, { w with tree := after.tree })

/-- Compile versions side by side. -/
def compileApart (output : Path) :
    List Source → Action CompileError (List (Source × Except CompileError Compiled))
  | [] => pure []
  | source :: rest => do
    let r ← Action.attempt (Action.apart (compile output source))
    let others ← compileApart output rest
    pure ((source, r) :: others)

/-- Report what became of versions that were compiled side by side. -/
def settleAll : List (Source × Except CompileError Compiled) →
    Action CompileError (List VersionFailure)
  | [] => pure []
  | (source, r) :: rest => do
    let failures ← settleVersion source r
    let others ← settleAll rest
    pure (failures ++ others)

/-- Compile versions, side by side if that is wanted and there are several. -/
def compileAll (output : Path) (jobs : Int) (sources : List Source) :
    Action CompileError (List VersionFailure) :=
  if 1 < jobs ∧ 1 < sources.length then do settleAll (← compileApart output sources)
  else compileInTurn output sources

/-! ### Generation -/

/-- Failures in the order of the versions. -/
def inVersionOrder (versions : List String) (failures : List VersionFailure) :
    List VersionFailure :=
  failures.mergeSort fun f g => versions.idxOf f.version ≤ versions.idxOf g.version

/-- Write the alias, if its version was generated. -/
def settleLatest (p : GenerationPlan) (failed : List String) : Action GenerationError Unit :=
  if !p.versions.contains p.latest then
    Action.report .info s!"Latest version {p.latest} was not generated, leaving alias as is"
  else if failed.contains p.latest then
    Action.report .error s!"Latest version {p.latest} failed, not writing latest alias"
  else do
    let _ ← Action.mapError .latest (Package.emitLatest p.output p.latest)
    pure ()

/-- How the schema tree of a version is had. -/
def GenerationPlan.retrieve (p : GenerationPlan) (run : Runner) (version : String) :
    Action RetrievalError Source :=
  if p.download then fetchSource run repositoryUrl p.schemas version
  else localSource p.schemas version

/-- Generate packages. The versions that failed are listed in the order of the versions. -/
def generate (run : Runner) (p : GenerationPlan) :
    Action GenerationError (List VersionFailure) := do
  let found ← Action.mapError .retrieval (retrieveAll (p.retrieve run) default p.versions)
  let compiled ← Action.mapError .compile (compileAll p.output p.jobs found.sources)
  let failures := inVersionOrder p.versions (found.failures ++ compiled)
  let failed := (failures.map (·.version)).eraseDups
  settleLatest p failed
  let generated := (p.versions.length : Int) - failed.length
  Action.report .info s!"Generated {generated} of {p.versions.length} schema version(s)"
  pure failures

end EventSchema
