import EventSchema.Proofs.Computation

/-!
# Actions on workspaces

What the steps of an action do to a workspace, and that no action of the library looks at the lines
that were reported before (`Action.Appends`). Two workspaces that differ in their journals alone are
`Workspace.Alike`; an action has one outcome in both and leaves them alike (`Action.Appends.alike`).
Some actions depend on the file system alone (`Action.OnTree`).
-/

namespace EventSchema

/-- Two workspaces that differ at most in what was reported. -/
structure Workspace.Alike (w w' : Workspace) : Prop where
  tree : w.tree = w'.tree
  suffixes : w.suffixes = w'.suffixes
  commands : w.commands = w'.commands

namespace Workspace.Alike

variable {w w' w'' : Workspace}

theorem refl (w : Workspace) : w.Alike w := ⟨rfl, rfl, rfl⟩

theorem symm (h : w.Alike w') : w'.Alike w := ⟨h.tree.symm, h.suffixes.symm, h.commands.symm⟩

theorem trans (h : w.Alike w') (h' : w'.Alike w'') : w.Alike w'' :=
  ⟨h.tree.trans h'.tree, h.suffixes.trans h'.suffixes, h.commands.trans h'.commands⟩

/-- Lines that are added leave a workspace alike. -/
theorem journal (w : Workspace) (j : Journal) : w.Alike { w with journal := j } := ⟨rfl, rfl, rfl⟩

end Workspace.Alike

namespace Action

variable {ε δ α β : Type} {x : Action ε α} {f : α → Action ε β} {w : Workspace}

/-! ### Steps -/

/-- A message goes to the end of the journal. -/
theorem execute_report (level : Level) (text : String) (w : Workspace) :
    execute (report level text : Action ε Unit) w =
      (.ok (), { w with journal := w.journal ++ [⟨level, text⟩] }) := rfl

/-- A result is given as it is and leaves the workspace as it was. -/
theorem execute_ofExcept {r r' : Except ε α} (h : r = r') (w : Workspace) :
    execute (ofExcept r) w = (r', w) := congrArg (·, w) h

/-- Reporting adds to the journal and to nothing else. -/
theorem execute_ofReporting (y : Reporting ε α) (w : Workspace) :
    execute (ofReporting y) w =
      ((execute y w.journal).1, { w with journal := (execute y w.journal).2 }) :=
  rfl

/-- Renaming an error changes the result alone. -/
theorem execute_mapError (g : ε → δ) (x : Action ε α) (w : Workspace) :
    execute (mapError g x) w = ((execute x w).1.mapError g, (execute x w).2) := rfl

/-- What succeeds with its errors renamed succeeds without. -/
theorem execute_mapError_eq_ok {g : ε → δ} {x : Action ε α} {a : α} {w w' : Workspace}
    (h : execute (mapError g x) w = (.ok a, w')) : execute x w = (.ok a, w') := by
  rw [execute_mapError] at h
  obtain ⟨hok, hleft⟩ := Prod.mk.inj h
  exact Prod.ext (mapError_eq_ok hok) hleft

/-- An attempt succeeds with the result, an error among them. -/
theorem execute_attempt (x : Action ε α) (w : Workspace) :
    execute (attempt x : Action δ (Except ε α)) w = (.ok (execute x w).1, (execute x w).2) := rfl

/-- Reports may be made by themselves and added to the journal. -/
theorem execute_ofReporting_of_appends {y : Reporting ε α} (hy : y.Appends) (w : Workspace) :
    execute (ofReporting y) w = (y.outcome.1, { w with journal := w.journal ++ y.outcome.2 }) := by
  rw [execute_ofReporting, hy.execute_eq]

/-! ### What was reported before -/

/-- Lines put before all others of a workspace. -/
def putBefore (earlier : Journal) (w : Workspace) : Workspace :=
  { w with journal := earlier ++ w.journal }

/-- An action does not look at what was reported before, and adds to it. -/
def Appends (x : Action ε α) : Prop := ∀ earlier : Journal, Carries (putBefore earlier) x

namespace Appends

theorem pure (a : α) : Appends (Pure.pure a : Action ε α) := fun _ ↦ Carries.pure a

theorem throw (e : ε) : Appends (MonadExcept.throw e : Action ε α) := fun _ ↦ Carries.throw e

/-- One action after another only adds to the journal if both do. -/
theorem bind (hx : x.Appends) (hf : ∀ a, (f a).Appends) : Appends (x >>= f) :=
  fun earlier ↦ (hx earlier).bind fun a ↦ hf a earlier

/-- Reporting only adds to the journal. -/
theorem report (level : Level) (text : String) :
    Appends (Action.report level text : Action ε Unit) :=
  fun earlier w ↦ by
    simp only [execute_report, putBefore, List.append_assoc]

theorem ofExcept (r : Except ε α) : Appends (Action.ofExcept r) := fun _ _ ↦ rfl

/-- What only adds to a journal does so in a workspace. -/
theorem ofReporting {y : Reporting ε α} (hy : y.Appends) : Appends (Action.ofReporting y) :=
  fun earlier w ↦ by
    simp only [execute_ofReporting_of_appends hy, putBefore, List.append_assoc]

/-- Renaming an error does not change what is added. -/
theorem mapError {g : ε → δ} (hx : x.Appends) : Appends (Action.mapError g x) := fun earlier w ↦ by
  rw [execute_mapError, execute_mapError, hx earlier w]

/-- An attempt adds what the action adds. -/
theorem attempt (hx : x.Appends) : Appends (Action.attempt x : Action δ (Except ε α)) :=
  fun earlier w ↦ by
    rw [execute_attempt, execute_attempt, hx earlier w]

/-- Looking at the tree adds nothing to the journal. -/
theorem look (g : FileTree → Except FileError α) : Appends (Action.look g) := fun _ _ ↦ rfl

/-- An edit of the tree adds nothing to the journal. -/
theorem edit (g : FileTree → Except FileError FileTree) : Appends (Action.edit g) :=
  fun earlier w ↦ by
  simp only [execute, Action.edit, putBefore, ExceptT.run_mk, StateT.run]
  cases g w.tree <;> rfl

/-- Actions in a row only add to the journal if each of them does. -/
theorem forM {f : α → Action ε PUnit} (hf : ∀ a, (f a).Appends) (as : List α) :
    Appends (as.forM f) := by
  induction as with
  | nil => exact .pure PUnit.unit
  | cons a as ih => exact (hf a).bind fun _ ↦ ih

theorem discard (p : Path) : Appends (Action.discard p : Action ε Unit) :=
  (attempt (.edit _)).bind fun _ ↦ .pure ()

/-- An action with a clean-up only adds to the journal if both do. -/
theorem onFailure {cleanup : Action ε Unit} (hx : x.Appends) (hcleanup : cleanup.Appends) :
    Appends (Action.onFailure x cleanup) := by
  refine (attempt hx).bind fun r ↦ ?_
  cases r with
  | ok a => exact .pure a
  | error e => exact hcleanup.bind fun _ ↦ .throw e

/-- Making a temporary directory adds nothing to the journal. -/
theorem makeTemporary (folder : Path) (stem : String) :
    Appends (Action.makeTemporary folder stem) :=
  bind (fun _ _ ↦ rfl) fun _ ↦ (edit _).bind fun _ ↦ .pure _

theorem ensureDir (p : Path) : Appends (Action.ensureDir p) := by
  refine (attempt (.edit _)).bind fun r ↦ ?_
  cases r with
  | ok _ => exact .pure _
  | error e =>
    dsimp only
    split
    · exact .throw e
    · refine (look _).bind fun found ↦ ?_
      cases found with
      | true => exact .pure _
      | false => exact .throw e

theorem ensureDirsWithin (levels : Nat) (p : Path) :
    Appends (Action.ensureDirsWithin levels p) := by
  induction levels generalizing p with
  | zero => exact ensureDir p
  | succ levels ih =>
    refine (attempt (ensureDir p)).bind fun r ↦ ?_
    cases r with
    | ok _ => exact .pure _
    | error e =>
      dsimp only
      split
      · exact (ih p.parent).bind fun _ ↦ ensureDir p
      · exact .throw e

theorem ensureDirs (p : Path) : Appends (Action.ensureDirs p) := ensureDirsWithin _ p

/-- Such an action has one outcome in workspaces that are alike, and leaves them alike. -/
theorem alike (hx : x.Appends) {w w' : Workspace} (h : w.Alike w') :
    (execute x w).1 = (execute x w').1 ∧ (execute x w).2.Alike (execute x w').2 := by
  have hbare : ∀ w : Workspace, execute x w = ((execute x { w with journal := [] }).1,
      putBefore w.journal (execute x { w with journal := [] }).2) := fun w ↦ by
    rw [← hx w.journal { w with journal := [] }, putBefore, List.append_nil]
  have heq : { w with journal := [] } = { w' with journal := [] } := by
    rw [h.tree, h.suffixes, h.commands]
  rw [hbare w, hbare w', heq]
  exact ⟨rfl, ⟨rfl, rfl, rfl⟩⟩

end Appends

/-! ### The file system alone -/

/-- An action depends on the file system alone, and so does what it makes of it. -/
def OnTree (x : Action ε α) : Prop :=
  ∀ w w' : Workspace, w.tree = w'.tree →
    (execute x w).1 = (execute x w').1 ∧ (execute x w).2.tree = (execute x w').2.tree

namespace OnTree

theorem pure (a : α) : OnTree (Pure.pure a : Action ε α) := fun _ _ h ↦ ⟨rfl, h⟩

/-- A message does not depend on the journal, nor the tree on the message. -/
theorem report (level : Level) (text : String) :
    OnTree (Action.report level text : Action ε Unit) :=
  fun _ _ h ↦ ⟨rfl, h⟩

/-- What a look at the tree gives depends on the tree alone. -/
theorem look (g : FileTree → Except FileError α) : OnTree (Action.look g) := fun _ _ h ↦
  ⟨congrArg g h, h⟩

/-- What an edit makes of the tree depends on the tree alone. -/
theorem edit (g : FileTree → Except FileError FileTree) : OnTree (Action.edit g) := fun w w' h ↦ by
  simp only [execute, Action.edit, ExceptT.run_mk, StateT.run]
  rw [← h]
  cases g w.tree with
  | error e => exact ⟨rfl, h⟩
  | ok tree => exact ⟨rfl, rfl⟩

theorem mapError {g : ε → δ} (hx : x.OnTree) : OnTree (Action.mapError g x) := fun w w' h ↦ by
  rw [execute_mapError, execute_mapError, (hx w w' h).1]
  exact ⟨rfl, (hx w w' h).2⟩

/-- One action after another depends on the tree alone if both do. -/
theorem bind (hx : x.OnTree) (hf : ∀ a, (f a).OnTree) : OnTree (x >>= f) := fun w w' h ↦ by
  obtain ⟨houtcome, htree⟩ := hx w w' h
  rw [execute_bind, execute_bind]
  rcases hrun : execute x w with ⟨r, t⟩
  rcases hrun' : execute x w' with ⟨r', t'⟩
  rw [hrun, hrun'] at houtcome htree
  obtain rfl : r = r' := houtcome
  cases r with
  | error e => exact ⟨rfl, htree⟩
  | ok a => exact hf a t t' htree

end OnTree

end Action

end EventSchema
