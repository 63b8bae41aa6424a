import EventSchema.CommandLine.Run

/-!
# The program

The directories that a command line names are read into a file tree, the request is carried out on
the tree, and what changed is written back. Directories are looked for below the working directory
only, and files that hold no text are left alone. Commands are not run, so schema trees that are not
there yet cannot be downloaded.
-/

open EventSchema

/-- How deep directories are read. -/
def maxDepth : Nat := 256

/-- A place below the working directory. -/
def placeOf (trail : List String) := System.mkFilePath ("." :: trail)

/-- The tree of what lies at a place, as far down as it is read. -/
def loadTree : (depth : Nat) → List String → IO (Option FileTree)
  | 0, _ => pure none
  | depth + 1, trail => do
    try
      let entries ← (placeOf trail).readDir
      let mut children : Entries FileTree := []
      for entry in entries do
        if let some child ← loadTree depth (trail ++ [entry.fileName]) then
          children := children ++ [(entry.fileName, child)]
      pure (some (.dir children))
    catch _ =>
      try
        let text ← IO.FS.readFile (placeOf trail)
        pure (some (.file text))
      catch _ => pure none

/-- Put what lies at a path into a tree, with the directories above it. -/
def loadInto (tree : FileTree) (path : Path) : IO FileTree := do
  if path.root ≠ "" ∨ path.parts.contains ".." then pure tree
  else
    match ← loadTree maxDepth path.parts with
    | none => pure tree
    | some node =>
      let above := (List.range path.parts.length).map path.parts.take
      let tree := above.foldl (fun (t : FileTree) trail =>
        if (t.get? trail).isSome then t else FileTree.put .emptyDir trail t) tree
      pure (FileTree.put node path.parts tree)

/-- The tree of the directories that a command line names. -/
def loadFor (args : List String) : IO FileTree :=
  match CommandLine.readRequest args with
  | .error _ => pure .emptyDir
  | .ok request =>
    [request.settings.schemas, request.settings.output].foldlM loadInto .emptyDir

/-- Write back what changed from one tree to another. -/
def store (before after : FileTree) : IO Unit := do
  for (trail, _) in before.files do
    unless (after.get? trail).any fun node => !node.isDir do
      IO.FS.removeFile (placeOf trail)
  for trail in before.dirs.reverse do
    unless (after.get? trail).any FileTree.isDir do
      IO.FS.removeDir (placeOf trail)
  for trail in after.dirs do
    unless (before.get? trail).any FileTree.isDir do
      IO.FS.createDirAll (placeOf trail)
  for (trail, text) in after.files do
    let isSame : Bool :=
      match before.get? trail with
      | some (.file standing) => standing == text
      | _ => false
    unless isSame do
      IO.FS.writeFile (placeOf trail) text

/-- Run the program. -/
def main (args : List String) : IO UInt32 := do
  let before ← loadFor args
  let runner := Runner.unavailable "commands are not run by this program"
  let (result, w) := (CommandLine.execute runner args).run.run (Workspace.ofTree before)
  store before w.tree
  match result with
  | .ok exit => do
    IO.print exit.output
    exit.errors.forM IO.eprintln
    pure (UInt32.ofNat exit.status)
  | .error e => do
    IO.eprintln e.message
    pure 1
