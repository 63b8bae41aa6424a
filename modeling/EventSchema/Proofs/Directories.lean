import EventSchema.Proofs.FileTree.Operations
import EventSchema.Proofs.FileTree.Paths
import EventSchema.Proofs.Identifiers
import EventSchema.Proofs.Workspaces

/-!
# Making directories

What an action makes of a file system is told by the outcomes it can end with (`Action.Ends`),
whatever else the workspace holds. A directory is made with all that it lies in: the file system
only grows by directories on the way of its path (`FileTree.Grown`), whether or not that succeeds
(`Action.ends_ensureDirs`).
-/

namespace EventSchema

open EventSchema.Path FileTree

/-! ### The way of a path -/

/-- To follow a path is to come to a trail on the way or at its end. -/
def Path.Visits (p : Path) (q : List String) : Prop :=
  ∃ parts, parts <+: p.parts ∧ walk [] parts = q

namespace Path

variable {p : Path} {q : List String}

/-- What a path leads through it visits. -/
theorem LeadsThrough.visits (h : p.LeadsThrough q) : p.Visits q := by
  obtain ⟨parts, hparts, -, hq⟩ := h
  exact ⟨parts, hparts, hq⟩

theorem visits_trail (p : Path) : p.Visits p.trail := ⟨p.parts, List.prefix_rfl, rfl⟩

/-- A path visits what it leads through, and its end. -/
theorem visits_iff : p.Visits q ↔ p.LeadsThrough q ∨ q = p.trail := by
  constructor
  · rintro ⟨parts, hparts, hq⟩
    by_cases hall : parts = p.parts
    · exact .inr (by rw [← hq, hall]; rfl)
    · exact .inl ⟨parts, hparts, hall, hq⟩
  · rintro (h | rfl)
    · exact h.visits
    · exact p.visits_trail

/-- What the parent of a path visits, the path visits. -/
theorem Visits.of_parent (h : p.parent.Visits q) : p.Visits q := by
  obtain ⟨parts, hparts, hq⟩ := h
  exact ⟨parts, hparts.trans (List.dropLast_prefix _), hq⟩

end Path

/-! ### Paths that go on from a path -/

/-- A prefix of two lists one after the other ends in the first or in the second. -/
theorem prefix_append_cases {α : Type} {parts before after : List α}
    (h : parts <+: before ++ after) :
    parts <+: before ∨ ∃ s, s <+: after ∧ parts = before ++ s := by
  rcases List.prefix_or_prefix_of_prefix h (List.prefix_append before after) with hbefore | ⟨s, hs⟩
  · exact .inl hbefore
  · rw [← hs, List.prefix_append_right_inj] at h
    exact .inr ⟨s, h, hs.symm⟩

namespace Path

variable {p base : Path} {ps q : List String} {s : String}

/-- A path that goes on from another one by names alone. -/
structure Extends (p base : Path) (ps : List String) : Prop where
  parts : p.parts = base.parts ++ ps
  plain : ".." ∉ ps

/-- A path that extends another by names has their trail behind that of the other. -/
theorem Extends.trail_eq (h : p.Extends base ps) : p.trail = base.trail ++ ps := by
  rw [trail, h.parts, walk_append, walk_of_plain h.plain]
  rfl

/-- Each step of the extension is behind the trail of the base. -/
theorem Extends.walk_eq (h : p.Extends base ps) {s : List String} (hs : s <+: ps) :
    walk [] (base.parts ++ s) = base.trail ++ s := by
  rw [walk_append, walk_of_plain fun hmem ↦ h.plain (hs.subset hmem)]
  rfl

/-- On its way such a path follows the other one, and then goes on. -/
theorem Extends.visits (h : p.Extends base ps) (hq : p.Visits q) :
    base.Visits q ∨ ∃ s, s <+: ps ∧ q = base.trail ++ s := by
  obtain ⟨parts, hparts, hwalk⟩ := hq
  rw [h.parts] at hparts
  rcases prefix_append_cases hparts with hbase | ⟨s, hs, hrest⟩
  · exact .inl ⟨parts, hbase, hwalk⟩
  · exact .inr ⟨s, hs, by rw [← hwalk, hrest, h.walk_eq hs]⟩

/-- What an extended path leads through is visited by the base or lies within the extension. -/
theorem Extends.leadsThrough (h : p.Extends base ps) (hq : p.LeadsThrough q) :
    base.Visits q ∨ ∃ s, s <+: ps ∧ s ≠ ps ∧ q = base.trail ++ s := by
  obtain ⟨parts, hparts, hne, hwalk⟩ := hq
  rw [h.parts] at hparts hne
  rcases prefix_append_cases hparts with hbase | ⟨s, hs, hrest⟩
  · exact .inl ⟨parts, hbase, hwalk⟩
  · refine .inr ⟨s, hs, fun hall ↦ hne (by rw [hrest, hall]), ?_⟩
    rw [← hwalk, hrest, h.walk_eq hs]

/-- The parent of an extension extends the base by one name less. -/
theorem Extends.parent (h : p.Extends base ps) (hps : ps ≠ []) :
    p.parent.Extends base ps.dropLast where
  parts := by
    change p.parts.dropLast = base.parts ++ ps.dropLast
    rw [h.parts, List.dropLast_append_of_ne_nil hps]
  plain := fun hmem ↦ h.plain (List.mem_of_mem_dropLast hmem)

/-- An extension leads through each of its proper parts. -/
theorem Extends.leadsThrough_append {s : List String} (h : p.Extends base ps)
    (hs : s <+: ps) (hne : s ≠ ps) : p.LeadsThrough (base.trail ++ s) := by
  refine ⟨base.parts ++ s, ?_, fun heq ↦ hne ?_, h.walk_eq hs⟩
  · rw [h.parts]
    exact (List.prefix_append_right_inj _).2 hs
  · rw [h.parts] at heq
    exact List.append_cancel_left heq

/-- A path that comes below a trail has come to it. -/
theorem Visits.of_below {r : List String} (hq : p.Visits q) (hr : r ≠ []) (h : r <+: q) :
    p.Visits r := by
  obtain ⟨parts, hparts, rfl⟩ := hq
  obtain ⟨ps, hps, hwalk⟩ := exists_walk_eq hr h
  exact ⟨ps, hps.trans hparts, hwalk⟩

end Path

/-- All that a path comes to is a directory, if it is admitted and leads to one. -/
theorem FileTree.Admits.view_of_visits {t : FileTree} {root : Path}
    {q : List String} (h : t.Admits root) (hdir : t.view root.trail = some .dir)
    (hq : root.Visits q) : t.view q = some .dir :=
  (visits_iff.1 hq).elim (h.dirs q) fun heq ↦ heq ▸ hdir

/-! ### New directories -/

namespace FileTree

variable {p : Path} {t u v : FileTree}

/-- What stands at a trail is what stood there before, or a new directory on the way of a path. -/
def GrownAt (p : Path) (t u : FileTree) (q : List String) : Prop :=
  u.view q = t.view q ∨ t.view q = none ∧ u.view q = some .dir ∧ p.Visits q

/-- All stays as it was, but there may be new directories on the way of a path. -/
def Grown (p : Path) (t u : FileTree) : Prop := ∀ q, GrownAt p t u q

theorem Grown.refl (p : Path) (t : FileTree) : Grown p t t := fun _ ↦ .inl rfl

/-- Growth at a place continues. -/
theorem GrownAt.trans {q : List String} (h : GrownAt p t u q) (h' : GrownAt p u v q) :
    GrownAt p t v q := by
  rcases h with heq | ⟨hnone, hdir, hvisits⟩
  · rcases h' with heq' | ⟨hnone', hdir', hvisits'⟩
    · exact .inl (heq'.trans heq)
    · exact .inr ⟨heq.symm.trans hnone', hdir', hvisits'⟩
  · rcases h' with heq' | ⟨hnone', -, -⟩
    · exact .inr ⟨hnone, heq'.trans hdir, hvisits⟩
    · rw [hdir] at hnone'
      cases hnone'

/-- A tree that has grown twice has grown. -/
theorem Grown.trans (h : Grown p t u) (h' : Grown p u v) : Grown p t v := fun q ↦ (h q).trans (h' q)

/-- Growth along the parent of a path is growth along the path. -/
theorem Grown.of_parent (h : Grown p.parent t u) : Grown p t u := fun q ↦
  (h q).imp_right fun h ↦ ⟨h.1, h.2.1, h.2.2.of_parent⟩

/-- Directories stay while a tree grows. -/
theorem Grown.view_dir {q : List String} (h : Grown p t u) (hq : t.view q = some .dir) :
    u.view q = some .dir := by
  rcases h q with heq | ⟨hnone, -, -⟩
  · exact heq.trans hq
  · rw [hq] at hnone
    cases hnone

/-- A directory that is made where nothing stood. -/
theorem grown_of_update (hnone : t.view p.trail = none)
    (hview : u.view = Function.update t.view p.trail (some .dir)) : Grown p t u := fun q ↦ by
  rw [GrownAt, hview]
  by_cases hq : q = p.trail
  · rw [hq, Function.update_self]
    exact .inr ⟨hnone, rfl, p.visits_trail⟩
  · exact .inl (Function.update_of_ne hq _ _)

end FileTree

namespace Action

variable {ε δ α β : Type} {x : Action ε α} {f : α → Action ε β} {t u : FileTree} {p folder : Path}
  {Q R : Except ε α → FileTree → Prop} {S : Except ε β → FileTree → Prop}

/-! ### What an action ends with -/

/-- From a file system, an action ends with outcomes and file systems of a kind, whatever was
reported and however many temporary directories were asked for. -/
def Ends (x : Action ε α) (t : FileTree) (Q : Except ε α → FileTree → Prop) : Prop :=
  ∀ w : Workspace, w.tree = t → Q (execute x w).1 (execute x w).2.tree

namespace Ends

theorem pure {a : α} (h : Q (.ok a) t) : Ends (Pure.pure a : Action ε α) t Q := fun _ hw ↦ by
  rw [execute_pure, hw]
  exact h

theorem throw {e : ε} (h : Q (.error e) t) :
    Ends (MonadExcept.throw e : Action ε α) t Q := fun _ hw ↦ by
  rw [← hw] at h
  exact h

/-- What holds at the end of a run may be weakened. -/
theorem mono (h : Ends x t Q) (hQR : ∀ r u, Q r u → R r u) : Ends x t R :=
  fun w hw ↦ hQR _ _ (h w hw)

/-- A run of two actions ends as the second does after the first, or with the error of the first. -/
theorem bind (h : Ends x t Q) (hok : ∀ a u, Q (.ok a) u → Ends (f a) u S)
    (herror : ∀ e u, Q (.error e) u → S (.error e) u) : Ends (x >>= f) t S := fun w hw ↦ by
  have hx := h w hw
  rw [execute_bind]
  rcases hrun : execute x w with ⟨e | a, w'⟩
  · rw [hrun] at hx
    exact herror e w'.tree hx
  · rw [hrun] at hx
    exact hok a w'.tree hx w' rfl

/-- A look at the tree ends with what it sees, and the tree as it was. -/
theorem look {g : FileTree → Except FileError α} {Q : Except FileError α → FileTree → Prop}
    (h : Q (g t) t) : Ends (Action.look g) t Q := fun _ hw ↦ by
  rw [← hw] at h
  exact h

/-- An edit ends with the new tree, or with an error and the tree as it was. -/
theorem edit {g : FileTree → Except FileError FileTree}
    {Q : Except FileError Unit → FileTree → Prop} (hok : ∀ u, g t = .ok u → Q (.ok ()) u)
    (herror : ∀ e, g t = .error e → Q (.error e) t) :
    Ends (Action.edit g) t Q := fun w hw ↦ by
  rw [← hw] at hok herror
  simp only [execute, Action.edit, ExceptT.run_mk, StateT.run]
  cases hg : g w.tree with
  | ok u => exact hok u hg
  | error e => exact herror e hg

/-- A change that is not refused is made. -/
theorem edit_eq {g : FileTree → Except FileError FileTree} (h : g t = .ok u) :
    Ends (Action.edit g) t fun r v ↦ r = .ok () ∧ v = u :=
  edit (fun _ hv ↦ ⟨rfl, Except.ok.inj (hv.symm.trans h)⟩) fun e he ↦ by
    rw [h] at he
    cases he

/-- After a computation that was tried comes the next one, whether or not the first failed. -/
theorem bind_attempt {f : Except ε α → Action δ β} {S : Except δ β → FileTree → Prop}
    (h : Ends x t Q) (hf : ∀ r u, Q r u → Ends (f r) u S) :
    Ends (Action.attempt x >>= f) t S := fun w hw ↦ by
  rw [execute_bind_ok (execute_attempt x w)]
  exact hf _ _ (h w hw) _ rfl

/-- Renaming an error changes how the run ends in that alone. -/
theorem mapError {g : ε → δ} {Q : Except δ α → FileTree → Prop}
    (h : Ends x t fun r u ↦ Q (r.mapError g) u) : Ends (Action.mapError g x) t Q := fun w hw ↦ by
  rw [execute_mapError]
  exact h w hw

/-- A result ends the run as it is. -/
theorem ofExcept {r : Except ε α} (h : Q r t) : Ends (Action.ofExcept r) t Q := fun w hw ↦ by
  rw [execute_ofExcept rfl, hw]
  exact h

/-- A result that is one may be taken out of the run. -/
theorem bind_ofExcept {r : Except ε α} {a : α} (hr : r = .ok a) (h : Ends (f a) t S) :
    Ends (Action.ofExcept r >>= f) t S := fun w hw ↦ by
  rw [execute_bind_ok (execute_ofExcept hr w)]
  exact h w hw

/-- A message leaves the tree as it was. -/
theorem report {level : Level} {text : String} {Q : Except ε Unit → FileTree → Prop}
    (h : Q (.ok ()) t) :
    Ends (Action.report level text) t Q := fun w hw ↦ by
  rw [execute_report, hw]
  exact h

/-- What is cleaned up after a failure counts, and the failure is kept. -/
theorem onFailure {cleanup : Action ε Unit} (h : Ends x t Q)
    (hok : ∀ a u, Q (.ok a) u → R (.ok a) u)
    (herror : ∀ e u, Q (.error e) u → Ends cleanup u fun r v ↦ r = .ok () ∧ R (.error e) v) :
    Ends (Action.onFailure x cleanup) t R :=
  h.bind_attempt fun r u hQ ↦ by
    cases r with
    | ok a => exact .pure (hok a u hQ)
    | error e => exact (herror e u hQ).bind (fun _ _ h ↦ .throw h.2) fun _ _ h ↦ by cases h.1

end Ends

/-! ### Temporary directories -/

/-- The name of the temporary directory with a suffix. -/
def temporaryName (stem : String) (s : Suffix) : String := s!"{stem}{s.text}"

/-- The path of the temporary directory with a suffix. -/
def temporaryPath (folder : Path) (stem : String) (s : Suffix) : Path :=
  .ofString (folder.beneath (temporaryName stem s))

/-- A temporary name is a stem and a suffix. -/
theorem toList_temporaryName (stem : String) (s : Suffix) :
    (temporaryName stem s).toList = stem.toList ++ s.text.toList := by
  have h : temporaryName stem s = stem ++ s.text := rfl
  rw [h, String.toList_append]

/-- A temporary directory is made with the next suffix, if nothing has its name. -/
theorem execute_makeTemporary (folder : Path) (stem : String) (w : Workspace) :
    execute (makeTemporary folder stem) w =
      match makeDir (temporaryPath folder stem (w.suffixes 0)) w.tree with
      | .ok u => (.ok (temporaryPath folder stem (w.suffixes 0)),
          { w with suffixes := w.later, tree := u })
      | .error e =>
        (.error { e with subject := .path (folder.beneath (temporaryName stem (w.suffixes 0))) },
          { w with suffixes := w.later }) := by
  unfold makeTemporary
  rw [execute_bind_ok
    (rfl : execute _ w = (.ok (w.suffixes 0), { w with suffixes := w.later })), execute_bind]
  have hpath : Path.ofString (folder.beneath s!"{stem}{(w.suffixes 0).text}") =
      temporaryPath folder stem (w.suffixes 0) := rfl
  simp only [execute, Action.edit, ExceptT.run_mk, StateT.run, hpath]
  cases makeDir (temporaryPath folder stem (w.suffixes 0)) w.tree <;> rfl

/-- A temporary directory is made, or the file system stays as it is. -/
theorem ends_makeTemporary {stem : String} {Q : Except FileError Path → FileTree → Prop}
    (hok : ∀ s u, makeDir (temporaryPath folder stem s) t = .ok u →
      Q (.ok (temporaryPath folder stem s)) u)
    (herror : ∀ e, Q (.error e) t) : Ends (makeTemporary folder stem) t Q := fun w hw ↦ by
  rw [← hw] at hok herror
  rw [execute_makeTemporary]
  cases hmake : makeDir (temporaryPath folder stem (w.suffixes 0)) w.tree with
  | ok u => exact hok _ u hmake
  | error e => exact herror _

/-- A directory is discarded if that is possible. -/
theorem ends_discard {Q : Except ε Unit → FileTree → Prop}
    (hok : ∀ u, removeTree p t = .ok u → Q (.ok ()) u)
    (herror : ∀ e, removeTree p t = .error e → Q (.ok ()) t) : Ends (discard p) t Q :=
  (Ends.edit (Q := fun _ u ↦ Q (.ok ()) u) hok herror).bind_attempt fun _ _ h ↦ .pure h

/-! ### Directories with what they lie in -/

/-- The file system grew on the way of a path, and if that succeeded there is a directory at its
end. -/
def MadeDir (p : Path) (t : FileTree) (r : Except FileError Unit) (u : FileTree) : Prop :=
  Grown p t u ∧ (r = .ok () → u.Admits p ∧ u.view p.trail = some .dir)

/-- Ensuring a directory makes one where nothing stands. -/
theorem ends_ensureDir (p : Path) (t : FileTree) : Ends (ensureDir p) t (MadeDir p t) := by
  unfold ensureDir
  refine Ends.bind_attempt (Q := fun r u ↦ (∀ e, r = .error e → u = t) ∧ MadeDir p t r u)
    (.edit (fun u hu ↦ ⟨fun _ h ↦ (by cases h), ?_⟩)
      fun e _ ↦ ⟨fun _ _ ↦ rfl, .refl p t, fun h ↦ (by cases h)⟩) ?_
  · obtain ⟨hadmits, hnone, -, hview⟩ := makeDir_ok hu
    refine ⟨grown_of_update hnone hview, fun _ ↦ ⟨hadmits.update hnone hview, ?_⟩⟩
    rw [hview, Function.update_self]
  · rintro r u ⟨hsame, hmade⟩
    cases r with
    | ok _ => exact .pure hmade
    | error e =>
      obtain rfl := hsame e rfl
      have hfailed (e : FileError) : MadeDir p u (.error e) u := ⟨.refl p u, fun h ↦ by cases h⟩
      dsimp only
      split
      · exact .throw (hfailed e)
      · refine Ends.bind (Q := fun r v ↦ r = u.isDirectory p ∧ v = u) (.look ⟨rfl, rfl⟩) ?_ ?_
        · rintro found v ⟨hfound, rfl⟩
          cases found with
          | true => exact .pure ⟨.refl p v, fun _ ↦ isDirectory_true hfound.symm⟩
          | false => exact .throw (hfailed e)
        · rintro e v ⟨-, rfl⟩
          exact hfailed e

/-- A directory is made with all that it lies in, or there are new directories on its way only. -/
theorem ends_ensureDirsWithin (levels : Nat) (p : Path) (t : FileTree) :
    Ends (ensureDirsWithin levels p) t (MadeDir p t) := by
  induction levels generalizing p t with
  | zero => exact ends_ensureDir p t
  | succ levels ih =>
    unfold ensureDirsWithin
    refine (ends_ensureDir p t).bind_attempt fun r u ⟨hgrown, hdir⟩ ↦ ?_
    cases r with
    | ok _ => exact .pure ⟨hgrown, hdir⟩
    | error e =>
      dsimp only
      split
      · refine (ih p.parent u).bind ?_ fun _ v h ↦ ⟨hgrown.trans h.1.of_parent, fun h ↦ by cases h⟩
        rintro - v ⟨hparent, -⟩
        refine (ends_ensureDir p v).mono fun r w ⟨hgrown', hdir'⟩ ↦ ⟨?_, hdir'⟩
        exact (hgrown.trans hparent.of_parent).trans hgrown'
      · exact .throw ⟨hgrown, fun h ↦ by cases h⟩

/-- Ensuring a directory and those above it makes them where nothing stands. -/
theorem ends_ensureDirs (p : Path) (t : FileTree) : Ends (ensureDirs p) t (MadeDir p t) :=
  ends_ensureDirsWithin _ p t

/-- Where a directory is, nothing needs to be made. -/
theorem execute_ensureDirs_of_dir {w : Workspace} (h : w.tree.isDirectory p = .ok true) :
    execute (ensureDirs p) w = (.ok (), w) := by
  have hstands : ∃ e, makeDir p w.tree = .error e ∧ e.fault = .alreadyExists := by
    obtain ⟨hadmits, hdir⟩ := isDirectory_true h
    obtain ⟨es, hget⟩ := view_eq_dir_iff.1 hdir
    rw [makeDir, hadmits.locate_eq, hget]
    exact ⟨_, rfl, rfl⟩
  have hensure : execute (ensureDir p) w = (.ok (), w) := by
    obtain ⟨e, hmake, hfault⟩ := hstands
    have hedit : execute (Action.edit (makeDir p)) w = (.error e, w) := by
      simp only [execute, Action.edit, ExceptT.run_mk, StateT.run, hmake]
    have hlook : execute (Action.look fun t ↦ t.isDirectory p) w = (.ok true, w) :=
      congrArg (·, w) h
    rw [ensureDir, execute_bind_ok (Action.execute_attempt _ w), hedit]
    simp only [hfault, reduceCtorEq, or_self, if_false]
    exact execute_bind_ok hlook
  rw [ensureDirs]
  cases p.parts.length with
  | zero => exact hensure
  | succ levels =>
    rw [ensureDirsWithin, execute_bind_ok (Action.execute_attempt _ w), hensure]
    rfl

end Action

end EventSchema
