import EventSchema.Entries
import EventSchema.FileTree.Path
import EventSchema.Text.Quoted

/-!
# File trees

A file system as a value: a tree of directories and text files. Its root is the working directory.
Nothing is known of what lies outside, so an absolute path leads to nothing but its root. A file
holds text, so bytes that cannot be decoded do not occur, and there are no permissions and no limits
of space for which an operation could fail.

A place in the tree is named by a *trail*, the names from the root down without any dots. `get?`,
`put` and `remove` work on trails and are the view that statements about trees use; paths are
resolved to trails first, double dots against the tree.
-/

namespace EventSchema

/-- A file with its text, or a directory with its entries. -/
inductive FileTree where
  /-- A file. -/
  | file (text : String)
  /-- A directory. -/
  | dir (entries : List (String × FileTree))
  deriving Inhabited

/-- Why an operation on the file system is refused. -/
inductive FileFault where
  /-- The path leads to nothing. -/
  | noEntry
  /-- Something stands where a new entry should be. -/
  | alreadyExists
  /-- A file stands where a directory is needed. -/
  | notDirectory
  /-- A directory stands where a file is needed. -/
  | isDirectory
  /-- A directory would be moved into itself. -/
  | invalidMove
  /-- A name is longer than names can be. -/
  | nameTooLong
  /-- A directory that is not empty would be replaced. -/
  | notEmpty
  /-- A zero character stands in the path. -/
  | zeroCharacter
  deriving DecidableEq

namespace FileFault

/-- The number of a fault. -/
def number : FileFault → Nat
  | .noEntry => 2
  | .alreadyExists => 17
  | .notDirectory => 20
  | .isDirectory => 21
  | .invalidMove => 22
  | .nameTooLong => 36
  | .notEmpty => 39
  | .zeroCharacter => 0

/-- The wording of a fault. -/
def text : FileFault → String
  | .noEntry => "No such file or directory"
  | .alreadyExists => "File exists"
  | .notDirectory => "Not a directory"
  | .isDirectory => "Is a directory"
  | .invalidMove => "Invalid argument"
  | .nameTooLong => "File name too long"
  | .notEmpty => "Directory not empty"
  | .zeroCharacter => "embedded null byte"

end FileFault

/-- What a refused operation was about. -/
inductive FileSubject where
  /-- One path. -/
  | path (text : String)
  /-- A move from one path to another. -/
  | move (source target : String)
  /-- The removal of a directory with all that is in it. -/
  | removal (text : String)
  deriving DecidableEq

/-- A refused operation on the file system. -/
structure FileError where
  /-- The reason. -/
  fault : FileFault
  /-- What it was about. -/
  subject : FileSubject
  deriving DecidableEq

namespace FileSubject

/-- How a message names what an operation was about. -/
def text : FileSubject → String
  | .path p => Text.shown p
  | .move source target => Text.shown source ++ " -> " ++ Text.shown target
  | .removal p => "PosixPath(" ++ Text.shown p ++ ")"

end FileSubject

/-- The message of a refused operation. -/
def FileError.message (e : FileError) : String :=
  match e.fault with
  | .zeroCharacter => e.fault.text
  | fault => s!"[Errno {fault.number}] {fault.text}: {e.subject.text}"

/-- A refusal that is about one path. -/
def FileError.about (p : Path) (fault : FileFault) : FileError := ⟨fault, .path p.text⟩

namespace FileTree

/-- The directory without entries. -/
def emptyDir : FileTree := .dir []

/-- What stands at the end of a trail. -/
def get? : FileTree → List String → Option FileTree
  | t, [] => some t
  | .file _, _ :: _ => none
  | .dir es, n :: trail =>
    match Entries.get? es n with
    | some t => t.get? trail
    | none => none

/-- Let something stand at the end of a trail. Where the trail leaves the directories of the tree,
nothing changes. -/
def put (new : FileTree) : List String → FileTree → FileTree
  | [], _ => new
  | _ :: _, .file text => .file text
  | [n], .dir es => .dir (Entries.put es n new)
  | n :: m :: trail, .dir es =>
    match Entries.get? es n with
    | some t => .dir (Entries.put es n (put new (m :: trail) t))
    | none => .dir es

/-- Take away what stands at the end of a trail. The root stays. -/
def remove : List String → FileTree → FileTree
  | [], t => t
  | _ :: _, .file text => .file text
  | [n], .dir es => .dir (Entries.erase es n)
  | n :: m :: trail, .dir es =>
    match Entries.get? es n with
    | some t => .dir (Entries.put es n (remove (m :: trail) t))
    | none => .dir es

/-- Whether a tree is a directory. -/
def isDir : FileTree → Bool
  | .dir _ => true
  | .file _ => false

/-- The entries of a directory, none of a file. -/
def children : FileTree → Entries FileTree
  | .dir es => es
  | .file _ => []

/-- The longest name of an entry, in bytes. -/
def maxNameBytes : Nat := 255

/-- The end of one more step of a path, from a trail that leads to a directory. -/
def step (t : FileTree) (trail : List String) (part : String) : Except FileFault (List String) :=
  match t.get? trail with
  | none => .error .noEntry
  | some (.file _) => .error .notDirectory
  | some (.dir _) =>
    if part = ".." then .ok trail.dropLast
    else if maxNameBytes < part.utf8ByteSize then .error .nameTooLong
    else .ok (trail ++ [part])

/-- Follow the parts of a path from a trail. All but the last must lead to directories. -/
def follow (t : FileTree) : List String → List String → Except FileFault (List String)
  | trail, [] => .ok trail
  | trail, part :: parts =>
    match t.step trail part with
    | .ok next => t.follow next parts
    | .error e => .error e

/-- The trail of a path, and what stands there. The last part may lead to nothing. -/
def locate (t : FileTree) (p : Path) : Except FileFault (List String × Option FileTree) :=
  if p.hasZero then .error .zeroCharacter
  else if p.root ≠ "" ∧ p.parts ≠ [] then .error .noEntry
  else
    match t.follow [] p.parts with
    | .ok trail => .ok (trail, t.get? trail)
    | .error e => .error e

/-- What a path leads to, none if it leads to nothing. Only a name that is too long is an error. -/
def look (t : FileTree) (p : Path) : Except FileError (Option FileTree) :=
  match t.locate p with
  | .ok (_, found) => .ok found
  | .error .nameTooLong => .error (.about p .nameTooLong)
  | .error _ => .ok none

/-- Whether a path leads to something. -/
def pathExists (t : FileTree) (p : Path) : Except FileError Bool :=
  (t.look p).map Option.isSome

/-- Whether a path leads to a directory. -/
def isDirectory (t : FileTree) (p : Path) : Except FileError Bool :=
  (t.look p).map fun found => found.any isDir

/-- Whether a path leads to a file. -/
def isRegularFile (t : FileTree) (p : Path) : Except FileError Bool :=
  (t.look p).map fun found => found.any fun node => !node.isDir

/-- The text of a file. -/
def textAt (t : FileTree) (p : Path) : Except FileError String :=
  match t.locate p with
  | .ok (_, some (.file text)) => .ok text
  | .ok (_, some (.dir _)) => .error (.about p .isDirectory)
  | .ok (_, none) => .error (.about p .noEntry)
  | .error e => .error (.about p e)

/-! ### Operations that change one place -/

/-- Write a file, over the file that stands there if there is one. -/
def writeFile (p : Path) (text : String) (t : FileTree) : Except FileError FileTree :=
  match t.locate p with
  | .ok (_, some (.dir _)) => .error (.about p .isDirectory)
  | .ok (trail, _) => .ok (put (.file text) trail t)
  | .error e => .error (.about p e)

/-- Make an empty directory where nothing stands. -/
def makeDir (p : Path) (t : FileTree) : Except FileError FileTree :=
  match t.locate p with
  | .ok (_, some _) => .error (.about p .alreadyExists)
  | .ok (trail, none) => .ok (put emptyDir trail t)
  | .error e => .error (.about p e)

/-- Remove an empty directory. -/
def removeDir (p : Path) (t : FileTree) : Except FileError FileTree :=
  match t.locate p with
  | .ok (trail, some (.dir [])) => .ok (remove trail t)
  | .ok (_, some (.dir _)) => .error (.about p .notEmpty)
  | .ok (_, some (.file _)) => .error (.about p .notDirectory)
  | .ok (_, none) => .error (.about p .noEntry)
  | .error e => .error (.about p e)

/-- Remove a directory with all that is in it. -/
def removeTree (p : Path) (t : FileTree) : Except FileError FileTree :=
  match t.locate p with
  | .ok (trail, some (.dir _)) => .ok (remove trail t)
  | .ok (_, some (.file _)) => .error ⟨.notDirectory, .removal p.text⟩
  | .ok (_, none) => .error (.about p .noEntry)
  | .error e => .error (.about p e)

/-- Whether a node may be replaced by another in a move. -/
def replaceable (source target : FileTree) : Except FileFault Unit :=
  match source, target with
  | .dir _, .file _ => .error .notDirectory
  | .file _, .dir _ => .error .isDirectory
  | .dir _, .dir (_ :: _) => .error .notEmpty
  | _, _ => .ok ()

/-- Move a file or a directory. A file may take the place of a file, a directory that of an empty
directory. -/
def move (source target : Path) (t : FileTree) : Except FileError FileTree :=
  let refused (fault : FileFault) : Except FileError FileTree :=
    .error ⟨fault, .move source.text target.text⟩
  match t.locate source, t.locate target with
  | .error e, _ => refused e
  | _, .error e => refused e
  | .ok (_, none), _ => refused .noEntry
  | .ok (start, some node), .ok (finish, standing) =>
    if start = finish then .ok t
    else if start.isPrefixOf finish then refused .invalidMove
    else
      match standing.elim (.ok ()) (replaceable node) with
      | .error e => refused e
      | .ok () => .ok (put node finish (remove start t))

/-! ### What is below a directory -/

mutual

/-- The trails and texts of all files of a tree. -/
def files : FileTree → List (List String × String)
  | .file text => [([], text)]
  | .dir es => filesOfEntries es

/-- The trails and texts of all files below the entries of a directory. -/
def filesOfEntries : List (String × FileTree) → List (List String × String)
  | [] => []
  | (n, t) :: es => (t.files.map fun f => (n :: f.1, f.2)) ++ filesOfEntries es

end

mutual

/-- The trails of all directories of a tree, its root aside. -/
def dirs : FileTree → List (List String)
  | .file _ => []
  | .dir es => dirsOfEntries es

/-- The trails of all directories below and among the entries of a directory. -/
def dirsOfEntries : List (String × FileTree) → List (List String)
  | [] => []
  | (n, t) :: es =>
    (if t.isDir then [[n]] else []) ++ (t.dirs.map (n :: ·)) ++ dirsOfEntries es

end

end FileTree

end EventSchema
