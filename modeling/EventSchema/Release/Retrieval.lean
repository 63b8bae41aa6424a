import EventSchema.Text.Blank
import EventSchema.Workspace

/-!
# Retrieving schema trees

The tree of a version lies in a directory named after the version. If it is not there, it is cloned
from a repository into a staging directory and moved to its place once it turns out to be a schema
tree, so a directory with the name of a version always holds a whole tree.

How a clone goes is settled by a `Runner`, which answers a command with what it leaves at the place
of the clone and with whether it succeeded.
-/

namespace EventSchema

/-- A schema tree of a version. -/
structure Source where
  /-- The version. -/
  version : String
  /-- The directory. -/
  path : Path
  deriving Inhabited

/-! ### Cloning -/

/-- How a command ends. -/
inductive CloneResult where
  /-- It succeeds. -/
  | done
  /-- It ends with an exit status other than zero, and may have printed an error. -/
  | exit (status : Int) (printed : Option String)
  /-- It cannot be run. -/
  | refused (reason : String)

/-- What comes of a command. -/
structure CloneRun where
  /-- What it leaves at the place of the clone. -/
  left : Option FileTree
  /-- How it ends. -/
  result : CloneResult

/-- What comes of a command after the commands that were run before it. -/
abbrev Runner := (earlier : List Command) → Command → CloneRun

/-- A runner that cannot run anything. -/
def Runner.unavailable (reason : String) : Runner := fun _ _ => ⟨none, .refused reason⟩

/-- Run a command that clones to a path. -/
def Runner.clone {ε : Type} (run : Runner) (command : Command) (path : Path) :
    Action ε CloneResult :=
  modifyGet fun w =>
    let outcome := run w.commands command
    let tree := match outcome.left, w.tree.locate path with
      | some node, .ok (trail, _) => FileTree.put node trail w.tree
      | _, _ => w.tree
    (outcome.result, { w with tree := tree, commands := w.commands ++ [command] })

/-! ### Failures -/

/-- Why a schema tree cannot be had. -/
inductive RetrievalError where
  /-- It is not there, and must not be downloaded. -/
  | notPresent (version : String) (path : Path)
  /-- What was cloned is no schema tree. -/
  | notSchema (version repository : String)
  /-- The clone failed. -/
  | cloneFailed (version repository detail : String)
  /-- The clone could not be made or could not be moved to its place. -/
  | notPlaced (version : String) (path : Path) (reason : String)
  /-- The file system refuses an operation before the clone. -/
  | file (e : FileError)

namespace RetrievalError

/-- The message of a failure. -/
def message : RetrievalError → String
  | .notPresent version path => s!"Schema {version} has not been downloaded (expected {path.text})"
  | .notSchema version repository =>
    s!"Clone of schema {version} does not look like a schema directory (no version.json): "
      ++ repository
  | .cloneFailed version repository detail =>
    s!"Unable to clone schema {version} from {repository}: {detail}"
  | .notPlaced version path reason =>
    s!"Unable to materialize schema {version} at {path.text}: {reason}"
  | .file e => e.message

/-- Whether a failure concerns one version alone, so that others may still be tried. -/
def isOfVersion : RetrievalError → Bool
  | .file _ => false
  | _ => true

end RetrievalError

/-! ### Retrieval -/

/-- Where schema trees come from. -/
def repositoryUrl : String := "https://github.com/ocsf/ocsf-schema.git"

/-- The directory of a version. -/
def versionDir (schemas : Path) (version : String) : Path := schemas.joinText s!"v{version}"

/-- Whether the directory of a version is there. -/
def isPresent (path : Path) : Action RetrievalError Bool :=
  Action.mapError .file (Action.look fun t => t.isDirectory path)

/-- The tree of a version that is there already. -/
def localSource (schemas : Path) (version : String) : Action RetrievalError Source := do
  let path := versionDir schemas version
  if ← isPresent path then pure ⟨version, path⟩ else throw (.notPresent version path)

/-- The command that clones a version. -/
def cloneCommand (version repository : String) (path : Path) : Command :=
  ["git", "clone", "--depth", "1", "--branch", s!"v{version}", repository, path.text]

/-- What is said about a command that failed: what it printed, or else its exit status. -/
def failureDetail (status : Int) (printed : Option String) : String :=
  let text := Text.trim (printed.getD "")
  if text = "" then s!"exit status {status}" else text

/-- Clone a version and move the clone to its place. -/
def cloneTo (run : Runner) (version repository : String) (clone path : Path) :
    Action RetrievalError Unit := do
  let refused (e : FileError) : RetrievalError := .notPlaced version path e.message
  match ← run.clone (cloneCommand version repository clone) clone with
  | .exit status printed =>
    throw (.cloneFailed version repository (failureDetail status printed))
  | .refused reason => throw (.notPlaced version path reason)
  | .done => do
    unless ← Action.mapError refused
        (Action.look fun t => t.isRegularFile (clone.child "version.json")) do
      throw (.notSchema version repository)
    Action.mapError refused (Action.edit (FileTree.move clone path))

/-- The tree of a version, cloned if it is not there yet. -/
def fetchSource (run : Runner) (repository : String) (schemas : Path) (version : String) :
    Action RetrievalError Source := do
  let path := versionDir schemas version
  if ← isPresent path then
    Action.report .info s!"Schema {version} already present at {path.text}, skipping download"
  else
    Action.report .info s!"Downloading schema {version} from {repository}"
    let staging ← Action.mapError .file do
      Action.ensureDirs schemas
      Action.makeTemporary schemas s!".v{version}-"
    Action.andFinally (cloneTo run version repository (staging.child "ocsf-schema") path)
      (Action.discard staging)
    Action.report .info s!"Downloaded schema {version} to {path.text}"
  pure ⟨version, path⟩

/-! ### Several versions -/

/-- A version that failed, with the reason. -/
structure VersionFailure where
  /-- The version. -/
  version : String
  /-- The reason. -/
  error : String
  deriving DecidableEq

/-- What was retrieved and what failed. -/
structure Retrieved where
  /-- The schema trees. -/
  sources : List Source
  /-- The failures. -/
  failures : List VersionFailure
  deriving Inhabited

/-- Retrieve versions one after another. A version that fails does not keep the others from being
tried. -/
def retrieveAll (retrieve : String → Action RetrievalError Source) (found : Retrieved) :
    List String → Action RetrievalError Retrieved
  | [] => pure found
  | version :: rest => do
    match ← Action.attempt (retrieve version) with
    | .ok source => retrieveAll retrieve { found with sources := found.sources ++ [source] } rest
    | .error e =>
      if e.isOfVersion then do
        Action.report .error e.message
        retrieveAll retrieve
          { found with failures := found.failures ++ [⟨version, e.message⟩] } rest
      else throw e

/-- Fetch versions one after another. -/
def fetchSources (run : Runner) (repository : String) (schemas : Path) (versions : List String) :
    Action RetrievalError Retrieved :=
  retrieveAll (fetchSource run repository schemas) default versions

end EventSchema
