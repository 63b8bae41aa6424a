import EventSchema.CommandLine.Request

/-!
# Running requests

A request is carried out in a workspace. What was reported at the chosen level or above is shown,
followed by the versions that failed; the exit status says whether any did.
-/

namespace EventSchema.CommandLine

/-- What a run of the program comes to. -/
structure Exit where
  /-- The exit status. -/
  status : Nat
  /-- What is printed. -/
  output : String
  /-- The lines that are printed apart from the output. -/
  errors : List String
  deriving Inhabited

/-- The exit of a run that did what was asked. -/
def Exit.success (output : String) : Exit := ⟨0, output, []⟩

/-- The exit when no request comes of a command line. -/
def Ending.exit : Ending → Exit
  | .help => .success ""
  | .version => .success s!"{programName} {programVersion}\n"
  | .refused program e => ⟨2, "", [s!"{program}: error: {e.message}"]⟩

/-- The lines about versions that failed. -/
def failureLines (failures : List VersionFailure) : List String :=
  if failures.isEmpty then []
  else
    s!"{failures.length} schema version(s) failed:"
      :: failures.map fun f => s!"  {f.version}: {f.error}"

namespace Request

/-- The versions that are worked on. -/
def versions (r : Request) : List String :=
  if r.settings.versions.isEmpty then supportedVersions else r.settings.versions

/-- What is to be generated. -/
def plan (r : Request) : GenerationPlan :=
  ⟨r.versions, r.settings.schemas, r.settings.output, r.settings.latest, r.settings.jobs,
    r.settings.download⟩

/-- Carry out a request. The versions that failed are listed. -/
def perform (run : Runner) (r : Request) : Action GenerationError (List VersionFailure) :=
  match r.operation with
  | .download => do
    let found ← Action.mapError .retrieval
      (fetchSources run repositoryUrl r.settings.schemas r.versions)
    pure found.failures
  | .generate => generate run r.plan

/-- The exit after a request was carried out. -/
def exit (r : Request) (journal : Journal) (failures : List VersionFailure) : Exit where
  status := if failures.isEmpty then 0 else 1
  output := ""
  errors := journal.render r.settings.level ++ failureLines failures

end Request

/-- Run the program on a command line. -/
def execute (run : Runner) (args : List String) : Action GenerationError Exit := do
  match readRequest args with
  | .error ending => pure ending.exit
  | .ok request => do
    let before := (← get).journal.length
    let failures ← request.perform run
    pure (request.exit ((← get).journal.drop before) failures)

end EventSchema.CommandLine
