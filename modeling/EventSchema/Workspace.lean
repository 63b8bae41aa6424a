import EventSchema.FileTree.Basic
import EventSchema.Journal

/-!
# Workspaces

What a run works on: the file system, the names for temporary directories, the journal and the
commands that were run. An `Action` changes a workspace step by step and may fail on the way; what
it did before the failure stays done, as it does on a disk.

What names temporary directories get is not known to a run. A workspace has them ready, so that what
is said of all workspaces is said of all such names.
-/

namespace EventSchema

/-- A command with its arguments. -/
abbrev Command := List String

/-- What the name of a temporary directory ends in: letters, digits and underscores. -/
structure Suffix where
  /-- The suffix. -/
  text : String
  word : ∀ c ∈ text.toList, c.isAlphanum = true ∨ c = '_'

/-- The suffix with a number. -/
def Suffix.numbered (n : Nat) : Suffix where
  text := s!"tmp{n}"
  word c hc := by
    have happend : s!"tmp{n}" = "tmp" ++ n.repr := rfl
    rw [happend, String.toList_append, List.mem_append, Nat.toList_repr] at hc
    rcases hc with hc | hc
    · have hletters : ∀ c ∈ "tmp".toList, c.isAlphanum = true := List.all_eq_true.1 (by decide)
      exact .inl (hletters c hc)
    · refine .inl ?_
      rw [Char.isAlphanum, Nat.isDigit_of_mem_toDigits (by decide) (by decide) hc, Bool.or_true]

/-- A suffix has no other characters than letters, digits and underscores. -/
theorem Suffix.not_mem_text {c : Char} (halphanum : c.isAlphanum = false) (hne : c ≠ '_')
    (s : Suffix) : c ∉ s.text.toList := fun hmem => by
  rcases s.word c hmem with h | h
  · rw [halphanum] at h
    cases h
  · exact hne h

instance : Inhabited Suffix := ⟨.numbered 0⟩

/-- What a run works on. -/
structure Workspace where
  /-- The file system. -/
  tree : FileTree
  /-- The suffixes of the temporary directories that are still to be asked for, in this order. -/
  suffixes : Nat → Suffix
  /-- What was reported. -/
  journal : Journal
  /-- The commands that were run, oldest first. -/
  commands : List Command
  deriving Inhabited

/-- A workspace in which nothing was done yet. Its temporary directories are numbered. -/
def Workspace.ofTree (tree : FileTree) : Workspace := ⟨tree, Suffix.numbered, [], []⟩

/-- The suffixes that are left when one more temporary directory was asked for. -/
def Workspace.later (w : Workspace) : Nat → Suffix := fun n => w.suffixes (n + 1)

/-- A computation that changes a workspace and may fail. -/
abbrev Action (ε α : Type) := ExceptT ε (StateM Workspace) α

namespace Action

variable {ε δ α : Type}

/-- Report a line. -/
def report (level : Level) (text : String) : Action ε Unit :=
  modifyGet fun w => ((), { w with journal := w.journal ++ [⟨level, text⟩] })

/-- A computation that changes nothing. -/
def ofExcept (r : Except ε α) : Action ε α := ExceptT.mk (pure r)

/-- A computation that reports and changes nothing else. -/
def ofReporting (x : Reporting ε α) : Action ε α :=
  ExceptT.mk fun w =>
    let (r, journal) := x.run.run w.journal
    (r, { w with journal := journal })

/-- Change the kind of failure. -/
def mapError (f : ε → δ) (x : Action ε α) : Action δ α :=
  ExceptT.mk (Except.mapError f <$> x.run)

/-- The outcome of a computation, failed or not. -/
def attempt (x : Action ε α) : Action δ (Except ε α) := ExceptT.mk (Except.ok <$> x.run)

/-- Ask something about the file system. -/
def look (f : FileTree → Except FileError α) : Action FileError α :=
  ExceptT.mk fun w => (f w.tree, w)

/-- Change the file system. A change that is refused changes nothing. -/
def edit (f : FileTree → Except FileError FileTree) : Action FileError Unit :=
  ExceptT.mk fun w =>
    match f w.tree with
    | .ok tree => (.ok (), { w with tree := tree })
    | .error e => (.error e, w)

/-- Remove a directory with all that is in it, if that is possible. -/
def discard (p : Path) : Action ε Unit := do
  let _ ← attempt (edit (FileTree.removeTree p))
  pure ()

/-- Do something more after a computation that failed. -/
def onFailure (x : Action ε α) (cleanup : Action ε Unit) : Action ε α := do
  match ← attempt x with
  | .ok a => pure a
  | .error e => do
    cleanup
    throw e

/-- Do something more after a computation, failed or not. -/
def andFinally (x : Action ε α) (cleanup : Action ε Unit) : Action ε α := do
  let r ← attempt x
  cleanup
  ofExcept r

/-! ### Directories -/

/-- Make a directory unless there is one. What it would lie in must be there. -/
def ensureDir (p : Path) : Action FileError Unit := do
  match ← attempt (edit (FileTree.makeDir p)) with
  | .ok () => pure ()
  | .error e =>
    if e.fault = .noEntry ∨ e.fault = .zeroCharacter then throw e
    else
      unless ← look fun t => t.isDirectory p do
        throw e

/-- Make a directory with what it lies in, up to a number of levels. -/
def ensureDirsWithin : (levels : Nat) → Path → Action FileError Unit
  | 0, p => ensureDir p
  | levels + 1, p => do
    match ← attempt (ensureDir p) with
    | .ok () => pure ()
    | .error e =>
      if e.fault = .noEntry then do
        ensureDirsWithin levels p.parent
        ensureDir p
      else throw e

/-- Make a directory with all that it lies in. -/
def ensureDirs (p : Path) : Action FileError Unit := ensureDirsWithin p.parts.length p

/-- Make a new directory for the time being. Its name ends in the next suffix. Other suffixes are
tried as long as something of that name is there already, so the next suffix is the one the search
ends with. Where the name is taken even so, no other is left and this fails. -/
def makeTemporary (folder : Path) (stem : String) : Action FileError Path := do
  let suffix ← modifyGet fun w => (w.suffixes 0, { w with suffixes := w.later })
  let text := folder.beneath s!"{stem}{suffix.text}"
  let path := Path.ofString text
  edit fun t => (FileTree.makeDir path t).mapError fun e => { e with subject := .path text }
  pure path

end Action

end EventSchema
