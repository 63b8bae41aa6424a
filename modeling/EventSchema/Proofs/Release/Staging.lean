import EventSchema.Proofs.Release.Fetching

/-!
# What fetching leaves behind

Fetching a version that is not there makes a staging directory, lets a command clone into it, moves
the clone to the directory of the version and discards the staging directory. Whichever of these
steps fails, all is as it was before; if none does, the directory of the version holds the clone and
all else is as it was (`fetchSource_stages`).

The way to the directory of the version must not lead through the staging directory, which is gone
in the end. It cannot for a version without slashes (`not_visits_stagingPath`), but there are others
for which it does (`fetchSource_throughStaging`).
-/

namespace EventSchema

open EventSchema.Action EventSchema.Path FileTree

variable {run : Runner} {repository version : String} {schemas clone path staging : Path}
  {t u c : FileTree} {w w' : Workspace} {r : Except RetrievalError Source}

/-! ### Cloning and discarding -/

/-- What a command that clones to a path makes of a file system. -/
def cloned (clone : Path) (left : Option FileTree) (t : FileTree) : FileTree :=
  left.elim t fun node ↦ FileTree.put node clone.trail t

/-- A clone changes nothing outside of its directory. -/
theorem view_cloned_elsewhere {left : Option FileTree} {q : List String}
    (hq : ¬ clone.trail <+: q) :
    (cloned clone left t).view q = t.view q := by
  cases left with
  | none => rfl
  | some node => exact (isLocal_put node).view_elsewhere hq

/-- A command leaves something where the path for its clone leads. -/
theorem execute_clone_of_locate {ε : Type} {trail : List String} {found : Option FileTree}
    (h : w.tree.locate clone = .ok (trail, found)) (command : Command) :
    execute (run.clone command clone : Action ε CloneResult) w =
      (.ok (run w.commands command).result,
        { w with
          tree := (run w.commands command).left.elim w.tree fun node ↦ put node trail w.tree
          commands := w.commands ++ [command] }) := by
  rw [Runner.clone, execute_modifyGet, h]
  dsimp only
  cases (run w.commands command).left <;> rfl

/-- A clone leaves what its command leaves, where the file system takes it. -/
theorem execute_clone {ε : Type} (h : w.tree.Admits clone) (command : Command) :
    execute (run.clone command clone : Action ε CloneResult) w =
      (.ok (run w.commands command).result, { w with
        tree := cloned clone (run w.commands command).left w.tree
        commands := w.commands ++ [command] }) :=
  execute_clone_of_locate h.locate_eq command

/-- An edit that is possible is made. -/
theorem execute_edit_ok {g : FileTree → Except FileError FileTree} (h : g w.tree = .ok t) :
    execute (Action.edit g) w = (.ok (), { w with tree := t }) := by
  simp only [execute, Action.edit, ExceptT.run_mk, StateT.run, h]

/-- An edit that is not possible leaves all as it was. -/
theorem execute_edit_error {g : FileTree → Except FileError FileTree} {e : FileError}
    (h : g w.tree = .error e) :
    execute (Action.edit g) w = (.error e, w) := by
  simp only [execute, Action.edit, ExceptT.run_mk, StateT.run, h]

/-- What is done with a clone, as the command for it ended. -/
def settleClone (version repository : String) (clone path : Path) :
    CloneResult → Action RetrievalError Unit
  | .exit status printed => throw (.cloneFailed version repository (failureDetail status printed))
  | .refused reason => throw (.notPlaced version path reason)
  | .done => do
    unless ← Action.mapError (fun e ↦ .notPlaced version path e.message)
        (Action.look fun t ↦ t.isRegularFile (clone.child "version.json")) do
      throw (.notSchema version repository)
    Action.mapError (fun e ↦ .notPlaced version path e.message)
      (Action.edit (FileTree.move clone path))

/-- Cloning to a path is to run the command and then to settle the clone. -/
theorem cloneTo_eq (run : Runner) (version repository : String) (clone path : Path) :
    cloneTo run version repository clone path =
      run.clone (cloneCommand version repository clone) clone >>=
        settleClone version repository clone path := by
  rw [cloneTo]
  congr 1

/-- A clone that is a schema tree is moved to its place. -/
theorem execute_settleClone_done (repository version : String)
    (hfile : w.tree.isRegularFile (clone.child "version.json") = .ok true)
    (hmove : move clone path w.tree = .ok t) :
    execute (settleClone version repository clone path .done) w =
      (.ok (), { w with tree := t }) := by
  have hlook : execute (Action.mapError (fun e ↦ RetrievalError.notPlaced version path e.message)
      (Action.look fun t ↦ t.isRegularFile (clone.child "version.json"))) w = (.ok true, w) := by
    rw [Action.execute_mapError]
    exact congrArg (fun r ↦ (Except.mapError _ r, w)) hfile
  rw [settleClone, execute_bind_ok hlook]
  show execute (Action.mapError _ (Action.edit (move clone path))) w = _
  rw [Action.execute_mapError, execute_edit_ok hmove]
  rfl

/-- A clone is moved to its place if it is a schema tree, or stays where it is. -/
theorem settleClone_cases (version repository : String) (clone path : Path)
    (result : CloneResult) (w : Workspace) :
    ∃ r t,
      execute (settleClone version repository clone path result) w = (r, { w with tree := t }) ∧
      ((∃ e, r = .error e) ∧ t = w.tree ∨
        r = .ok () ∧ w.tree.isRegularFile (clone.child "version.json") = .ok true ∧
          move clone path w.tree = .ok t) := by
  cases result with
  | exit status printed => exact ⟨_, w.tree, rfl, .inl ⟨⟨_, rfl⟩, rfl⟩⟩
  | refused reason => exact ⟨_, w.tree, rfl, .inl ⟨⟨_, rfl⟩, rfl⟩⟩
  | done =>
    have hlook : execute (Action.mapError (fun e ↦ RetrievalError.notPlaced version path e.message)
          (Action.look fun t ↦ t.isRegularFile (clone.child "version.json"))) w =
        ((w.tree.isRegularFile (clone.child "version.json")).mapError _, w) := rfl
    cases hfile : w.tree.isRegularFile (clone.child "version.json") with
    | error e =>
      rw [hfile] at hlook
      exact ⟨_, w.tree, execute_bind_error hlook, .inl ⟨⟨_, rfl⟩, rfl⟩⟩
    | ok found =>
      rw [hfile] at hlook
      cases found with
      | false => exact ⟨_, w.tree, execute_bind_ok hlook, .inl ⟨⟨_, rfl⟩, rfl⟩⟩
      | true =>
        cases hmove : move clone path w.tree with
        | error e =>
          have hrefused :
              execute (Action.mapError (fun e ↦ RetrievalError.notPlaced version path e.message)
              (Action.edit (FileTree.move clone path))) w =
            (.error (.notPlaced version path e.message), w) := by
            rw [Action.execute_mapError, execute_edit_error hmove]
            rfl
          exact ⟨_, w.tree, (execute_bind_ok hlook).trans hrefused, .inl ⟨⟨_, rfl⟩, rfl⟩⟩
        | ok t =>
          exact ⟨_, t, execute_settleClone_done repository version hfile hmove,
            .inr ⟨rfl, rfl, rfl⟩⟩

/-- A directory that is removed in the end does not change the outcome. -/
theorem execute_andFinally_of_removeTree {ε α : Type} {x : Action ε α} {r : Except ε α}
    (h : execute x w = (r, w')) (hremove : removeTree staging w'.tree = .ok t) :
    execute (Action.andFinally x (Action.discard staging)) w = (r, { w' with tree := t }) := by
  have hdiscard :
      execute (Action.discard staging : Action ε Unit) w' = (.ok (), { w' with tree := t }) := by
    rw [Action.discard, execute_bind_ok (Action.execute_attempt _ w'), execute_edit_ok hremove]
    rfl
  rw [Action.andFinally, execute_bind_ok (Action.execute_attempt x w), h, execute_bind_ok hdiscard]
  rfl

/-! ### Staging directories -/

/-- The staging directory that is made for a version. -/
def stagingPath (schemas : Path) (version : String) (w : Workspace) : Path :=
  temporaryPath schemas s!".v{version}-" (w.suffixes 0)

/-- Where a version is cloned to. -/
def clonePath (staging : Path) : Path := staging.child "ocsf-schema"

theorem trail_child {name : String} (hname : name ≠ "..") (p : Path) :
    (p.child name).trail = p.trail ++ [name] := by
  rw [trail, child, walk_concat, advance, if_neg hname]
  rfl

theorem trail_clonePath (staging : Path) :
    (clonePath staging).trail = staging.trail ++ ["ocsf-schema"] :=
  trail_child (by decide) staging

/-- A directory in which a version is staged: nothing stood there before, and an empty directory
does now. -/
structure Staged (staging : Path) (t u : FileTree) : Prop where
  admits : t.Admits staging
  free : t.view staging.trail = none
  empty : u.get? staging.trail = some emptyDir
  kept : ∀ q, ¬ staging.trail <+: q → u.view q = t.view q

/-- A directory that was made is a staging directory. -/
theorem staged_of_makeDir (h : makeDir staging t = .ok u) : Staged staging t u := by
  obtain ⟨hadmits, hnone, hget, hview⟩ := makeDir_ok h
  refine ⟨hadmits, hnone, hget, fun q hq ↦ ?_⟩
  have hne : q ≠ staging.trail := fun heq ↦ hq (heq ▸ List.prefix_rfl)
  rw [hview, Function.update_of_ne hne]

namespace Staged

variable {left : Option FileTree}

theorem trail_ne_nil (h : Staged staging t u) : staging.trail ≠ [] := fun hnil ↦ by
  have hfree := h.free
  rw [hnil, view_nil] at hfree
  cases hfree

theorem view_staging (h : Staged staging t u) : u.view staging.trail = some .dir :=
  view_eq_dir_iff.2 ⟨[], h.empty⟩

/-- Nothing stood below a staging directory before it was made. -/
theorem free_below (h : Staged staging t u) {q : List String} (hq : staging.trail <+: q) :
    t.view q = none :=
  view_eq_none_below h.free hq

/-- The way to the staging directory is still there as long as no directory of it is changed. -/
theorem admits_of_way (h : Staged staging t u)
    (hway : ∀ q, ¬ staging.trail <+: q → t.view q = some .dir → c.view q = some .dir) :
    c.Admits staging :=
  ⟨h.admits.usable, fun q hq ↦ hway q (fun hbelow ↦ by
    have hdir := h.admits.dirs q hq
    rw [h.free_below hbelow] at hdir
    cases hdir) (h.admits.dirs q hq)⟩

/-- A staging directory takes a clone. -/
theorem admits_clone (h : Staged staging t u) : u.Admits (clonePath staging) := by
  have hroot : (clonePath staging).root = "" := h.admits.usable.relative.resolve_right fun hnil ↦
    h.trail_ne_nil (congrArg (walk []) hnil)
  have hadmits : u.Admits staging := h.admits_of_way fun q hq hdir ↦ (h.kept q hq).trans hdir
  have hparts : (clonePath staging).parts = staging.parts ++ ["ocsf-schema"] := rfl
  exact (admits_of_name (isDirectory_iff.2 ⟨hadmits, h.view_staging⟩) hroot hparts
    (by decide) (by decide) (by decide)).1

/-- Cloning changes nothing outside of the staging directory. -/
theorem cloned_kept (h : Staged staging t u) {q : List String} (hq : ¬ staging.trail <+: q) :
    (cloned (clonePath staging) left u).view q = t.view q := by
  rw [view_cloned_elsewhere fun hbelow ↦ hq ?_, h.kept q hq]
  rw [trail_clonePath] at hbelow
  exact (List.prefix_append _ _).trans hbelow

/-- A staging directory stays a directory while a version is cloned into it. -/
theorem view_cloned_staging (h : Staged staging t u) :
    (cloned (clonePath staging) left u).view staging.trail = some .dir := by
  rw [view_cloned_elsewhere fun hbelow ↦ ?_, h.view_staging]
  have hlength := hbelow.length_le
  rw [trail_clonePath, List.length_append, List.length_singleton] at hlength
  omega

/-- Discarding the staging directory after a clone leaves all as it was before. -/
theorem removeTree_cloned (h : Staged staging t u) (left : Option FileTree) :
    ∃ f, removeTree staging (cloned (clonePath staging) left u) = .ok f ∧ f.view = t.view := by
  have hadmits : (cloned (clonePath staging) left u).Admits staging :=
    h.admits_of_way fun q hq hdir ↦ (h.cloned_kept hq).trans hdir
  refine ⟨_, removeTree_eq hadmits h.view_cloned_staging, funext fun q ↦ ?_⟩
  by_cases hq : staging.trail <+: q
  · rw [(cleared_remove h.trail_ne_nil).gone q hq, h.free_below hq]
  · rw [(cleared_remove h.trail_ne_nil).kept q hq, h.cloned_kept hq]

/-- A clone that is a schema tree is what the command left. -/
theorem exists_left (h : Staged staging t u)
    (hfile : (cloned (clonePath staging) left u).isRegularFile
      ((clonePath staging).child "version.json") = .ok true) :
    ∃ node, left = some node ∧ (∃ text, node.view ["version.json"] = some (.file text)) ∧
      ∀ q,
      (cloned (clonePath staging) left u).view ((clonePath staging).trail ++ q) = node.view q := by
  obtain ⟨text, htext⟩ := isRegularFile_true hfile
  rw [trail_child (by decide)] at htext
  cases left with
  | none =>
    have hempty : u.view ((clonePath staging).trail ++ ["version.json"]) = none := by
      rw [trail_clonePath, List.append_assoc, view_append_of_get? h.empty]
      exact view_emptyDir (List.cons_ne_nil _ _)
    rw [show cloned (clonePath staging) none u = u from rfl, hempty] at htext
    cases htext
  | some node =>
    have hview (q : List String) :
        (cloned (clonePath staging) (some node) u).view ((clonePath staging).trail ++ q) =
          node.view q := by
      rw [trail_clonePath]
      show (FileTree.put node (clonePath staging).trail u).view _ = _
      rw [trail_clonePath]
      exact view_put_append h.view_staging "ocsf-schema" q
    exact ⟨node, rfl, ⟨text, (hview _).symm.trans htext⟩, hview⟩

/-- A place that has no directory and is not reached through the staging directory is apart from
it. -/
theorem incomparable (h : Staged staging t u) (hadmits : t.Admits path)
    (hnot : t.isDirectory path ≠ .ok true) (hthrough : ¬ path.Visits staging.trail) :
    Incomparable path.trail staging.trail := by
  refine ⟨fun hbelow ↦ ?_, fun habove ↦ hthrough (path.visits_trail.of_below h.trail_ne_nil habove)⟩
  obtain ⟨r, n, hstaging, hr⟩ := h.admits.exists_concat h.trail_ne_nil
  rw [hstaging] at hbelow
  rcases List.prefix_concat_iff.1 hbelow with heq | ⟨s, hs⟩
  · exact hthrough ((hstaging.trans heq.symm) ▸ path.visits_trail)
  · refine hnot (isDirectory_iff.2 ⟨hadmits, ?_⟩)
    by_cases hnil : s = []
    · rwa [← List.append_nil path.trail, ← hnil, hs]
    · exact view_of_append (by rw [hs, hr]; simp) hnil

/-- A clone that is moved to its place is there once the staging directory is discarded, and all
else is as it was before. -/
theorem removeTree_moved (h : Staged staging t u) (hnot : t.isDirectory path ≠ .ok true)
    (hthrough : ¬ path.Visits staging.trail)
    (hfile : (cloned (clonePath staging) left u).isRegularFile
      ((clonePath staging).child "version.json") = .ok true)
    (hmove : move (clonePath staging) path (cloned (clonePath staging) left u) = .ok c) :
    ∃ node f, left = some node ∧ (∃ text, node.view ["version.json"] = some (.file text)) ∧
      removeTree staging c = .ok f ∧ f.isDirectory path = .ok true ∧
      (∀ q, f.view (path.trail ++ q) = node.view q) ∧
        (∀ q, ¬ path.trail <+: q → f.view q = t.view q) ∧ f.view staging.trail = none := by
  obtain ⟨node, hleft, ⟨text, htext⟩, hnode⟩ := h.exists_left hfile
  have hne : (clonePath staging).trail ≠ path.trail := fun heq ↦ by
    refine hthrough (path.visits_trail.of_below h.trail_ne_nil ?_)
    rw [← heq, trail_clonePath]
    exact List.prefix_append _ _
  obtain ⟨-, hadmitted, -, -, hmoved⟩ := move_ok hmove hne
  have hadmits : t.Admits path := hadmitted.congr fun q hq ↦
    (h.cloned_kept fun hbelow ↦ hthrough (hq.visits.of_below h.trail_ne_nil hbelow)).symm
  have hnodir {q : List String} (hq : t.view q = some .dir) : ¬ path.trail <+: q := by
    rintro ⟨s, rfl⟩
    refine hnot (isDirectory_iff.2 ⟨hadmits, ?_⟩)
    by_cases hnil : s = []
    · rwa [hnil, List.append_nil] at hq
    · exact view_of_append (by rw [hq]; simp) hnil
  have hapart := h.incomparable hadmits hnot hthrough
  have hclone {q : List String} (hq : ¬ staging.trail <+: q) : ¬ (clonePath staging).trail <+: q :=
    fun hbelow ↦ by
    rw [trail_clonePath] at hbelow
    exact hq ((List.prefix_append _ _).trans hbelow)
  have hkept {q : List String} (hpath : ¬ path.trail <+: q) (hq : ¬ staging.trail <+: q) :
      c.view q = t.view q :=
    (hmoved.kept q hpath (hclone hq)).trans (h.cloned_kept hq)
  have hstaging : c.view staging.trail = some .dir := by
    rw [hmoved.kept _ hapart.left fun hbelow ↦ ?_, h.view_cloned_staging]
    have hlength := hbelow.length_le
    rw [trail_clonePath, List.length_append, List.length_singleton] at hlength
    omega
  have hremove :=
    removeTree_eq (h.admits_of_way fun q hq hdir ↦ (hkept (hnodir hdir) hq).trans hdir) hstaging
  have hcleared := cleared_remove (t := c) h.trail_ne_nil
  have hplaced (q : List String) :
      (remove staging.trail c).view (path.trail ++ q) = node.view q := by
    rw [hcleared.kept _ (hapart.symm.not_prefix_append q), hmoved.arrived, hnode]
  have hrest (q : List String) (hq : ¬ path.trail <+: q) :
      (remove staging.trail c).view q = t.view q := by
    by_cases hbelow : staging.trail <+: q
    · rw [hcleared.gone q hbelow, h.free_below hbelow]
    · rw [hcleared.kept q hbelow, hkept hq hbelow]
  refine ⟨node, _, hleft, ⟨text, htext⟩, hremove, isDirectory_iff.2 ⟨?_, ?_⟩, hplaced, hrest,
    hcleared.gone _ List.prefix_rfl⟩
  · exact hadmits.congr fun q hq ↦ hrest q (hnodir (hadmits.dirs q hq))
  · rw [← List.append_nil path.trail, hplaced]
    exact view_of_append (q := ["version.json"]) (by rw [List.nil_append, htext]; simp)
      (List.cons_ne_nil _ _)

end Staged

/-! ### Fetching -/

/-- A path of a version without slashes does not lead through the staging directory. -/
theorem not_visits_stagingPath (hread : schemas.IsRead) (hversion : '/' ∉ version.toList)
    (hschemas : w.tree.isDirectory schemas = .ok true)
    (hstaged : Staged (stagingPath schemas version w) w.tree u) :
    ¬ (versionDir schemas version).Visits (stagingPath schemas version w).trail := by
  intro hvisits
  have hversionName := toList_versionName version
  have hstagingName := toList_stagingName_version version (w.suffixes 0)
  have hroot : (ofString s!"v{version}").root = "" := root_ofString_cons hversionName (by decide)
  have hpath : (versionDir schemas version).Extends schemas [s!"v{version}"] := by
    refine ⟨?_, fun hdots ↦ ?_⟩
    · rw [versionDir, parts_joinText hroot]
      exact congrArg (schemas.parts ++ ·) (isName_versionName hversion).partsOf_eq
    · rw [← List.mem_singleton.1 hdots] at hversionName
      cases hversionName
  have hstaging : (stagingPath schemas version w).Extends schemas
      [temporaryName s!".v{version}-" (w.suffixes 0)] := by
    refine ⟨?_, fun hdots ↦ ?_⟩
    · rw [stagingPath, temporaryPath, hread.parts_beneath]
      exact congrArg (schemas.parts ++ ·) (isName_stagingName hversion _).partsOf_eq
    · rw [← List.mem_singleton.1 hdots] at hstagingName
      exact absurd (List.cons.inj (List.cons.inj hstagingName).2).1 (by decide)
  rcases hpath.visits hvisits with hschemasVisits | ⟨s, hs, heq⟩
  · obtain ⟨hadmits, hdir⟩ := isDirectory_true hschemas
    have hview := hadmits.view_of_visits hdir hschemasVisits
    rw [hstaged.free] at hview
    cases hview
  · rw [hstaging.trail_eq] at heq
    rw [← List.append_cancel_left heq] at hs
    have hnames := (List.cons_prefix_cons.1 hs).1
    rw [hnames, hversionName] at hstagingName
    exact absurd (List.cons.inj hstagingName).1 (by decide)

/-- A version was put in its place: it is what the command left, a schema tree, nothing else has
changed, and its staging directory is gone. -/
structure Placed (run : Runner) (repository version : String) (path staging : Path)
    (w w' : Workspace) : Prop where
  commands : w'.commands = w.commands ++ [cloneCommand version repository (clonePath staging)]
  whole : ∃ node,
    (run w.commands (cloneCommand version repository (clonePath staging))).left = some node ∧
    (∃ text, node.view ["version.json"] = some (.file text)) ∧
    ∀ q, w'.tree.view (path.trail ++ q) = node.view q
  kept : ∀ q, ¬ path.trail <+: q → w'.tree.view q = w.tree.view q
  unstaged : w.tree.view staging.trail = none ∧ w'.tree.view staging.trail = none

/-- A staging directory is made where there is a directory for it and nothing stands in its
place. -/
theorem execute_makeStaging (version : String) (hschemas : w.tree.isDirectory schemas = .ok true) :
    (∃ u, Staged (stagingPath schemas version w) w.tree u ∧
      execute (makeStaging schemas version) w =
      (.ok (stagingPath schemas version w), { w with suffixes := w.later, tree := u })) ∨
    ∃ e, execute (makeStaging schemas version) w = (.error e, { w with suffixes := w.later }) := by
  rw [makeStaging, execute_bind_ok (execute_ensureDirs_of_dir hschemas), execute_makeTemporary,
    ← stagingPath]
  cases hmake : makeDir (stagingPath schemas version w) w.tree with
  | error e => exact .inr ⟨_, rfl⟩
  | ok u => exact .inl ⟨u, staged_of_makeDir hmake, rfl⟩

/-- How fetching a version that is not there can end. -/
theorem cloneStaged_cases (hstaged : Staged staging t w.tree) (hnot : t.isDirectory path ≠ .ok true)
    (hthrough : ¬ path.Visits staging.trail) :
    ∃ r w', execute (cloneStaged run repository path staging version) w = (r, w') ∧
      ((∃ e, r = .error e) ∧ w'.tree.view = t.view ∨
        (∃ source, r = .ok source) ∧ w'.tree.isDirectory path = .ok true ∧
          Placed run repository version path staging { w with tree := t } w') := by
  obtain ⟨r, c, hrun, hcases⟩ := settleClone_cases version repository (clonePath staging) path
    (run w.commands (cloneCommand version repository (clonePath staging))).result
    { w with
      tree := cloned (clonePath staging)
        (run w.commands (cloneCommand version repository (clonePath staging))).left w.tree
      commands := w.commands ++ [cloneCommand version repository (clonePath staging)] }
  have hclone := (execute_bind_ok (execute_clone hstaged.admits_clone
    (cloneCommand version repository (clonePath staging)))).trans hrun
  rw [← cloneTo_eq] at hclone
  rcases hcases with ⟨⟨e, rfl⟩, rfl⟩ | ⟨rfl, hfile, hmove⟩
  · obtain ⟨f, hremove, hview⟩ := hstaged.removeTree_cloned
      (run w.commands (cloneCommand version repository (clonePath staging))).left
    exact ⟨_, _, execute_bind_error (execute_andFinally_of_removeTree hclone hremove),
      .inl ⟨⟨e, rfl⟩, hview⟩⟩
  · obtain ⟨node, f, hleft, htext, hremove, hdir, hnode, hkept, hgone⟩ :=
      hstaged.removeTree_moved hnot hthrough hfile hmove
    refine ⟨_, _, (execute_bind_ok (execute_andFinally_of_removeTree hclone hremove)).trans
      (execute_bind_ok (Action.execute_report _ _ _)), .inr ⟨⟨_, rfl⟩, hdir, ?_⟩⟩
    exact ⟨rfl, ⟨node, hleft, htext, hnode⟩, hkept, hstaged.free, hgone⟩

/-- **Fetching is all or nothing.** Whether fetching a version returns or fails, the directory of
the version is there afterwards if and only if it was there before or fetching returned. Where it
was there, nothing changes and no command is run. Otherwise a version that is returned was put in
its place as the command left it, and a failure leaves all as it was. The version has no slash, or
at least its path does not lead through the staging directory. -/
theorem fetchSource_stages (hread : schemas.IsRead)
    (hschemas : w.tree.isDirectory schemas = .ok true)
    (hthrough : '/' ∉ version.toList ∨
      ¬ (versionDir schemas version).Visits (stagingPath schemas version w).trail)
    (h : execute (fetchSource run repository schemas version) w = (r, w')) :
    (w'.tree.isDirectory (versionDir schemas version) = .ok true ↔
      w.tree.isDirectory (versionDir schemas version) = .ok true ∨ ∃ source, r = .ok source) ∧
    (w.tree.isDirectory (versionDir schemas version) = .ok true → w'.tree = w.tree ∧
      w'.commands = w.commands) ∧
    (w.tree.isDirectory (versionDir schemas version) ≠ .ok true → ∀ source, r = .ok source →
      Placed run repository version (versionDir schemas version)
        (stagingPath schemas version w) w w') ∧
    ∀ e, r = .error e → w'.tree.view = w.tree.view := by
  rcases hfound : w.tree.isDirectory (versionDir schemas version) with x | _ | _
  · rw [execute_fetchSource_error run repository hfound] at h
    cases h
    rw [hfound]
    exact ⟨⟨nofun, nofun⟩, nofun, nofun, fun _ _ ↦ rfl⟩
  · obtain ⟨j, hrun⟩ := execute_fetchSource_missing run repository hfound
    rw [hrun] at h
    have hnot : w.tree.isDirectory (versionDir schemas version) ≠ .ok true := by
      rw [hfound]
      nofun
    -- neither reports nor the suffixes that are left count for what stands where
    have hfailed {w' : Workspace} (hview : w'.tree.view = w.tree.view) :
        ¬ w'.tree.isDirectory (versionDir schemas version) = .ok true := fun hdir ↦
      hnot ((isDirectory_congr hview).1 hdir)
    rcases execute_makeStaging version (w := { w with journal := j }) hschemas with
      ⟨u, hstaged, hmake⟩ | ⟨e, hmake⟩
    · have hmap : execute (Action.mapError RetrievalError.file (makeStaging schemas version))
          { w with journal := j } = (.ok (stagingPath schemas version w),
            { w with suffixes := w.later, journal := j, tree := u }) := by
        rw [Action.execute_mapError, hmake]
        rfl
      rw [execute_bind_ok hmap] at h
      have hway : ¬ (versionDir schemas version).Visits (stagingPath schemas version w).trail :=
        hthrough.elim (fun hversion ↦ not_visits_stagingPath hread hversion hschemas hstaged) id
      obtain ⟨r', w₁, hclone, hcases⟩ := cloneStaged_cases
        (w := { w with suffixes := w.later, journal := j, tree := u }) hstaged hnot hway
      obtain ⟨rfl, rfl⟩ := Prod.mk.inj (hclone.symm.trans h)
      rcases hcases with ⟨⟨e, rfl⟩, hview⟩ | ⟨⟨source, rfl⟩, hdir, hplaced⟩
      · exact ⟨iff_of_false (hfailed hview) nofun, nofun, nofun, fun _ _ ↦ hview⟩
      · exact ⟨iff_of_true hdir (.inr ⟨source, rfl⟩), nofun,
          fun _ _ _ ↦ ⟨hplaced.commands, hplaced.whole, hplaced.kept, hplaced.unstaged⟩, nofun⟩
    · have hmap : execute (Action.mapError RetrievalError.file (makeStaging schemas version))
          { w with journal := j } =
            (.error (.file e), { w with suffixes := w.later, journal := j }) := by
        rw [Action.execute_mapError, hmake]
        rfl
      rw [execute_bind_error hmap] at h
      cases h
      exact ⟨iff_of_false (hfailed rfl) nofun, nofun, nofun, fun _ _ ↦ rfl⟩
  · obtain ⟨j, hrun⟩ := execute_fetchSource_present run repository hfound
    rw [hrun] at h
    cases h
    exact ⟨iff_of_true hfound (.inl rfl), fun _ ↦ ⟨rfl, rfl⟩, fun hnot ↦ absurd rfl hnot,
      fun _ _ ↦ rfl⟩

/-! ### Schema trees that are cloned -/

/-- A schema tree that says its version. -/
def versionTree : FileTree := .dir [("version.json", .file "\x7b\"version\": \"1.6.0\"\x7d")]

/-- A runner that clones it. -/
def versionRunner : Runner := fun _ _ ↦ ⟨some versionTree, .done⟩

/-- A version that is not there is put in its place. -/
theorem fetchSource_stages_partialTrees : ∃ w',
    execute (fetchSource versionRunner repositoryUrl ⟨"", ["schemas"]⟩ "1.6.0")
      (.ofTree partialTrees) =
      (.ok ⟨"1.6.0", ⟨"", ["schemas", "v1.6.0"]⟩⟩, w') ∧
    w'.tree.isDirectory (versionDir ⟨"", ["schemas"]⟩ "1.6.0") = .ok true ∧
    Placed versionRunner repositoryUrl "1.6.0" (versionDir ⟨"", ["schemas"]⟩ "1.6.0")
      (stagingPath ⟨"", ["schemas"]⟩ "1.6.0" (.ofTree partialTrees)) (.ofTree partialTrees) w' := by
  have hname : ∀ version, version = "1.6.0" →
      temporaryPath ⟨"", ["schemas"]⟩ s!".v{version}-" (.numbered 0) =
        ⟨"", ["schemas", ".v1.6.0-tmp0"]⟩ := by
    rintro _ rfl
    decide +kernel
  have hmissing : partialTrees.isDirectory (versionDir ⟨"", ["schemas"]⟩ "1.6.0") = .ok false := rfl
  obtain ⟨j, hrun⟩ :=
    execute_fetchSource_missing versionRunner repositoryUrl hmissing (w := .ofTree partialTrees)
  have hmake : execute (Action.mapError RetrievalError.file (makeStaging ⟨"", ["schemas"]⟩ "1.6.0"))
      { Workspace.ofTree partialTrees with journal := j } =
        (.ok ⟨"", ["schemas", ".v1.6.0-tmp0"]⟩,
          ⟨.dir [("schemas", .dir [("v1.7.0", .dir []), (".v1.6.0-tmp0", .dir [])])],
            fun n ↦ .numbered (n + 1), j, []⟩) := by
    rw [Action.execute_mapError, makeStaging, execute_bind_ok (execute_ensureDirs_of_dir rfl),
      execute_makeTemporary, Workspace.ofTree, hname _ rfl]
    rfl
  rw [execute_bind_ok hmake] at hrun
  obtain ⟨w', hdone⟩ : ∃ w',
      execute (fetchSource versionRunner repositoryUrl ⟨"", ["schemas"]⟩ "1.6.0")
        (.ofTree partialTrees) = (.ok ⟨"1.6.0", ⟨"", ["schemas", "v1.6.0"]⟩⟩, w') :=
        ⟨_, hrun.trans rfl⟩
  have hread : Path.IsRead ⟨"", ["schemas"]⟩ := isRead_ofString "schemas"
  obtain ⟨hiff, -, hplaced, -⟩ := fetchSource_stages hread rfl (.inl (by decide)) hdone
  exact ⟨w', hdone, hiff.2 (.inr ⟨_, rfl⟩),
    hplaced (fun hdir ↦ by cases hmissing.symm.trans hdir) _ rfl⟩

/-! ### A version that leads through its staging directory -/

/-- A directory of schema trees, with a directory in which staging directories go on. -/
def leadingTrees (entries : Entries FileTree) (name : String) : FileTree :=
  .dir [("schemas", .dir [("va", .dir entries), (".va", .dir [(name, .dir [])])])]

/-- The name of a directory that comes from a suffix. -/
def throughName (s : Suffix) : String := "b-" ++ s.text

/-- A version whose path leads through the staging directory with a suffix. -/
def throughVersion (s : Suffix) : String := "a/b-" ++ s.text ++ "/../../va/b"

/-- The path of its staging directory. -/
def throughStaging (s : Suffix) : Path :=
  ⟨"", ["schemas", ".va", throughName s, "..", "..", "va", throughName s]⟩

/-- The path of its directory. -/
def throughDir (s : Suffix) : Path :=
  ⟨"", ["schemas", "va", throughName s, "..", "..", "va", "b"]⟩

section Through

variable {s : Suffix} {es : Entries FileTree}

theorem toList_throughName (s : Suffix) : (throughName s).toList = 'b' :: '-' :: s.text.toList := by
  rw [throughName, String.toList_append]
  rfl

/-- The name that comes from a suffix is none of those that begin in another way. -/
theorem throughName_ne {name : String} (hname : name.toList.take 2 ≠ ['b', '-']) (s : Suffix) :
    throughName s ≠ name := fun heq ↦ hname (by rw [← heq, toList_throughName]; rfl)

/-- The name that comes from a suffix is the name of a file. -/
theorem isName_throughName (s : Suffix) : IsName (throughName s) := by
  refine ⟨throughName_ne (by decide) s, throughName_ne (by decide) s, fun hmem ↦ ?_⟩
  rw [toList_throughName, List.mem_cons, List.mem_cons] at hmem
  rcases hmem with hmem | hmem | hmem
  · cases hmem
  · cases hmem
  · exact s.not_mem_text (by decide) (by decide) hmem

theorem isName_fixed : IsName ".va" ∧ IsName ".." ∧ IsName "va" ∧ IsName "b" :=
  ⟨⟨by decide, by decide, by decide⟩, ⟨by decide, by decide, by decide⟩,
    ⟨by decide, by decide, by decide⟩, ⟨by decide, by decide, by decide⟩⟩

/-- The staging directory of the version is beneath a directory of the suffix. -/
theorem temporaryPath_throughVersion (s : Suffix) :
    temporaryPath ⟨"", ["schemas"]⟩ s!".v{throughVersion s}-" s = throughStaging s := by
  have hread : Path.IsRead ⟨"", ["schemas"]⟩ := isRead_ofString "schemas"
  have htext : (temporaryName s!".v{throughVersion s}-" s).toList =
      ("/".intercalate [".va", throughName s, "..", "..", "va", throughName s]).toList := by
    have hstem : s!".v{throughVersion s}-" = ".v" ++ throughVersion s ++ "-" := rfl
    rw [toList_temporaryName, hstem, throughVersion, throughName]
    simp
  have hparts : (temporaryPath ⟨"", ["schemas"]⟩ s!".v{throughVersion s}-" s).parts =
      (throughStaging s).parts := by
    rw [temporaryPath, hread.parts_beneath, parts_ofString, htext, partsOf_intercalate]
    · rfl
    · simp [isName_throughName s, isName_fixed]
  have hroot : (temporaryPath ⟨"", ["schemas"]⟩ s!".v{throughVersion s}-" s).root = "" :=
    hread.root_beneath rfl _
  exact congrArg₂ Path.mk hroot hparts

/-- The path of the version is the one that leads through its staging directory. -/
theorem versionDir_throughVersion (s : Suffix) :
    versionDir ⟨"", ["schemas"]⟩ (throughVersion s) = throughDir s := by
  have htext : s!"v{throughVersion s}".toList =
      ("/".intercalate ["va", throughName s, "..", "..", "va", "b"]).toList := by
    have hname : s!"v{throughVersion s}" = "v" ++ throughVersion s := rfl
    rw [hname, throughVersion, throughName]
    simp
  have hroot : (ofString s!"v{throughVersion s}").root = "" :=
    root_ofString_cons (toList_versionName _) (by decide)
  have hparts : (ofString s!"v{throughVersion s}").parts =
      ["va", throughName s, "..", "..", "va", "b"] := by
    rw [parts_ofString, htext, partsOf_intercalate]
    simp [isName_throughName s, isName_fixed]
  rw [versionDir, joinText, join, if_pos hroot, hparts]
  rfl

/-- Names of which a tree consists are not too long. -/
theorem fixed_short : "schemas".utf8ByteSize ≤ maxNameBytes ∧ ".va".utf8ByteSize ≤ maxNameBytes ∧
    "va".utf8ByteSize ≤ maxNameBytes ∧ "b".utf8ByteSize ≤ maxNameBytes ∧
    "ocsf-schema".utf8ByteSize ≤ maxNameBytes ∧ "version.json".utf8ByteSize ≤ maxNameBytes := by
  decide

/-- The way of the staging directory comes back to the directory of the version. -/
theorem locate_throughStaging (es : Entries FileTree) (parts : List String)
    (hparts : ∀ part ∈ parts, '\x00' ∉ part.toList)
    (hshort : (throughName s).utf8ByteSize ≤ maxNameBytes) :
    (leadingTrees es (throughName s)).locate ⟨"", (throughStaging s).parts ++ parts⟩ =
      match (leadingTrees es (throughName s)).follow ["schemas", "va", throughName s] parts with
      | .ok trail => .ok (trail, (leadingTrees es (throughName s)).get? trail)
      | .error e => .error e := by
  have hname : '\x00' ∉ (throughName s).toList := by
    rw [toList_throughName]
    simpa using s.not_mem_text (by decide) (by decide)
  have hzero : Path.hasZero ⟨"", (throughStaging s).parts ++ parts⟩ = false := by
    simpa [throughStaging, hasZero, hname] using hparts
  have hdots : throughName s ≠ ".." := throughName_ne (by decide) s
  have hfollow : (leadingTrees es (throughName s)).follow [] ((throughStaging s).parts ++ parts) =
      (leadingTrees es (throughName s)).follow ["schemas", "va", throughName s] parts := by
    simp [throughStaging, follow, step, leadingTrees, get?, Entries.get?, hdots,
      not_lt_of_ge, hshort, fixed_short]
  cases hway : (leadingTrees es (throughName s)).follow ["schemas", "va", throughName s] parts with
  | ok trail => simp [locate, hzero, hfollow, hway]
  | error e => simp [locate, hzero, hfollow, hway]

/-- The way to the directory of the version leads through a directory of the suffix. -/
theorem locate_throughDir (hshort : (throughName s).utf8ByteSize ≤ maxNameBytes) :
    (leadingTrees es (throughName s)).locate (throughDir s) =
      match Entries.get? es (throughName s) with
      | none => .error .noEntry
      | some (.file _) => .error .notDirectory
      | some (.dir _) => .ok (["schemas", "va", "b"], Entries.get? es "b") := by
  have hname : '\x00' ∉ (throughName s).toList := by
    rw [toList_throughName]
    simpa using s.not_mem_text (by decide) (by decide)
  have hzero : (throughDir s).hasZero = false := by simp [throughDir, hasZero, hname]
  have hdots : throughName s ≠ ".." := throughName_ne (by decide) s
  rw [locate, hzero]
  cases hget : Entries.get? es (throughName s) with
  | none =>
    simp [throughDir, follow, step, leadingTrees, get?, Entries.get?, hdots, not_lt_of_ge, hshort,
      fixed_short, hget]
  | some t =>
    cases t with
    | file =>
      simp [throughDir, follow, step, leadingTrees, get?, Entries.get?, hdots, not_lt_of_ge, hshort,
        fixed_short, hget]
    | dir =>
      simp [throughDir, follow, step, leadingTrees, get?, Entries.get?, hdots, not_lt_of_ge, hshort,
        fixed_short, hget]
      cases Entries.get? es "b" <;> rfl

/-- What stands in the directory of a version and of its staging directory. -/
theorem put_leadingTrees {name n : String} {node : FileTree} {trail : List String} {v : FileTree}
    (hv : put node (n :: trail) (.dir es) = v) :
    put node ("schemas" :: "va" :: n :: trail) (leadingTrees es name) =
      .dir [("schemas", .dir [("va", v), (".va", .dir [(name, .dir [])])])] := by
  simp [leadingTrees, put, Entries.get?, Entries.put, hv]

/-- The staging directory of the version is made where its path leads through. -/
theorem makeDir_throughStaging (hshort : (throughName s).utf8ByteSize ≤ maxNameBytes) :
    makeDir (throughStaging s) (leadingTrees [] (throughName s)) =
      .ok (leadingTrees [(throughName s, .dir [])] (throughName s)) := by
  have hlocate := locate_throughStaging [] [] (List.forall_mem_nil _) hshort
  rw [List.append_nil] at hlocate
  have hget : (leadingTrees [] (throughName s)).get? ["schemas", "va", throughName s] = none := by
    simp [leadingTrees, get?, Entries.get?]
  simp only [follow, hget] at hlocate
  rw [makeDir, show throughStaging s = ⟨"", (throughStaging s).parts⟩ from rfl, hlocate]
  exact congrArg Except.ok (put_leadingTrees rfl)


theorem ne_throughName (s : Suffix) : throughName s ≠ "b" ∧ "b" ≠ throughName s :=
  have h : throughName s ≠ "b" := throughName_ne (by decide) s
  ⟨h, h.symm⟩

/-- Nothing stands in the directory of the version as long as the way to it is not there. -/
theorem isDirectory_throughDir (hshort : (throughName s).utf8ByteSize ≤ maxNameBytes)
    (hget : Entries.get? es (throughName s) = none) :
    (leadingTrees es (throughName s)).isDirectory (throughDir s) = .ok false := by
  rw [isDirectory, FileTree.look, locate_throughDir hshort, hget]
  rfl

/-- The clone stands in the staging directory. -/
theorem locate_throughClone (hshort : (throughName s).utf8ByteSize ≤ maxNameBytes)
    (hget : Entries.get? es (throughName s) = some (.dir [])) :
    (leadingTrees es (throughName s)).locate (clonePath (throughStaging s)) =
      .ok (["schemas", "va", throughName s, "ocsf-schema"], none) := by
  have hlocate := locate_throughStaging es ["ocsf-schema"] (by decide) hshort
  have hclone : clonePath (throughStaging s) = ⟨"", (throughStaging s).parts ++ ["ocsf-schema"]⟩ :=
    rfl
  rw [hclone, hlocate]
  simp [follow, step, leadingTrees, get?, Entries.get?, hget, not_lt_of_ge, fixed_short]

/-- What the command leaves in the staging directory is a schema tree. -/
theorem isRegularFile_throughClone (hshort : (throughName s).utf8ByteSize ≤ maxNameBytes)
    (hget : Entries.get? es (throughName s) = some (.dir [("ocsf-schema", versionTree)])) :
    (leadingTrees es (throughName s)).isRegularFile
      ((clonePath (throughStaging s)).child "version.json") = .ok true := by
  have hlocate := locate_throughStaging es ["ocsf-schema", "version.json"] (by decide) hshort
  rw [isRegularFile, FileTree.look, show (clonePath (throughStaging s)).child "version.json" =
    ⟨"", (throughStaging s).parts ++ ["ocsf-schema", "version.json"]⟩ from rfl, hlocate]
  simp [follow, step, leadingTrees, get?, Entries.get?, hget, not_lt_of_ge, fixed_short,
    versionTree, Except.map, isDir]

/-- The clone is moved to the directory of the version. -/
theorem move_throughClone (hshort : (throughName s).utf8ByteSize ≤ maxNameBytes) :
    move (clonePath (throughStaging s)) (throughDir s)
        (leadingTrees [(throughName s, .dir [("ocsf-schema", versionTree)])] (throughName s)) =
      .ok (leadingTrees [(throughName s, .dir []), ("b", versionTree)] (throughName s)) := by
  have hlocate := locate_throughStaging [(throughName s, .dir [("ocsf-schema", versionTree)])]
    ["ocsf-schema"] (by decide) hshort
  have hclone : clonePath (throughStaging s) = ⟨"", (throughStaging s).parts ++ ["ocsf-schema"]⟩ :=
    rfl
  have hne := ne_throughName s
  rw [move, locate_throughDir hshort, hclone, hlocate]
  simp [follow, step, leadingTrees, get?, Entries.get?, not_lt_of_ge, fixed_short, hne, remove, put,
    Entries.put, Entries.erase]

/-- The staging directory is discarded where its path leads now. -/
theorem removeTree_throughStaging (hshort : (throughName s).utf8ByteSize ≤ maxNameBytes) :
    removeTree (throughStaging s)
        (leadingTrees [(throughName s, .dir []), ("b", versionTree)] (throughName s)) =
      .ok (leadingTrees [("b", versionTree)] (throughName s)) := by
  have hlocate := locate_throughStaging [(throughName s, .dir []), ("b", versionTree)] []
    (List.forall_mem_nil _) hshort
  rw [List.append_nil] at hlocate
  have hne := ne_throughName s
  rw [removeTree, show throughStaging s = ⟨"", (throughStaging s).parts⟩ from rfl, hlocate]
  simp [follow, leadingTrees, get?, Entries.get?, hne, remove, Entries.put, Entries.erase]

/-- The staging directory of the version is made next to the one that its path leads through. -/
theorem execute_makeStaging_through
    (hshort : (throughName (w.suffixes 0)).utf8ByteSize ≤ maxNameBytes)
    (htree : w.tree = leadingTrees [] (throughName (w.suffixes 0))) :
    execute (makeStaging ⟨"", ["schemas"]⟩ (throughVersion (w.suffixes 0))) w =
      (.ok (throughStaging (w.suffixes 0)), { w with
        suffixes := w.later
        tree :=
          leadingTrees [(throughName (w.suffixes 0), .dir [])] (throughName (w.suffixes 0)) }) := by
  have hschemas : w.tree.isDirectory ⟨"", ["schemas"]⟩ = .ok true := by
    rw [htree]
    rfl
  rw [makeStaging, execute_bind_ok (execute_ensureDirs_of_dir hschemas), execute_makeTemporary,
    temporaryPath_throughVersion, htree, makeDir_throughStaging hshort]

/-- The clone is made in the staging directory, moved, and then its way back is discarded. -/
theorem execute_cloneStaged_through (hshort : (throughName s).utf8ByteSize ≤ maxNameBytes)
    (htree : w.tree = leadingTrees [(throughName s, .dir [])] (throughName s)) (version : String) :
    ∃ w',
      execute (cloneStaged versionRunner repositoryUrl (throughDir s) (throughStaging s) version)
        w = (.ok ⟨version, throughDir s⟩, w') ∧
      w'.tree = leadingTrees [("b", versionTree)] (throughName s) := by
  have hput : put versionTree ["schemas", "va", throughName s, "ocsf-schema"] w.tree =
      leadingTrees [(throughName s, .dir [("ocsf-schema", versionTree)])] (throughName s) := by
    simp [htree, leadingTrees, put, Entries.get?, Entries.put]
  have hstanding :
      Entries.get? [(throughName s, FileTree.dir [])] (throughName s) = some (.dir []) := by
    simp [Entries.get?]
  have hlocate := locate_throughClone hshort hstanding
  rw [← htree] at hlocate
  have hclone : execute (versionRunner.clone
      (cloneCommand version repositoryUrl (clonePath (throughStaging s)))
      (clonePath (throughStaging s)) : Action RetrievalError CloneResult) w = _ :=
    execute_clone_of_locate hlocate _
  simp only [versionRunner, Option.elim_some, hput] at hclone
  have hdone := (execute_bind_ok hclone).trans (execute_settleClone_done repositoryUrl version
    (isRegularFile_throughClone hshort (by simp [Entries.get?])) (move_throughClone hshort))
  rw [← cloneTo_eq] at hdone
  exact ⟨_, (execute_bind_ok (execute_andFinally_of_removeTree hdone
    (removeTree_throughStaging hshort))).trans (execute_bind_ok (Action.execute_report _ _ _)), rfl⟩

/-- Whatever suffix staging directories get, there is a version whose path leads through its own.
Such a version is returned, but afterwards there is no such way. -/
theorem execute_fetchSource_through
    (hshort : (throughName (w.suffixes 0)).utf8ByteSize ≤ maxNameBytes)
    (htree : w.tree = leadingTrees [] (throughName (w.suffixes 0))) :
    ∃ w', execute (fetchSource versionRunner repositoryUrl ⟨"", ["schemas"]⟩
        (throughVersion (w.suffixes 0))) w =
      (.ok ⟨throughVersion (w.suffixes 0),
        versionDir ⟨"", ["schemas"]⟩ (throughVersion (w.suffixes 0))⟩, w') ∧
      w'.tree.isDirectory (versionDir ⟨"", ["schemas"]⟩ (throughVersion (w.suffixes 0))) =
        .ok false := by
  have hmissing :
      w.tree.isDirectory (versionDir ⟨"", ["schemas"]⟩ (throughVersion (w.suffixes 0))) =
      .ok false := by
    rw [htree, versionDir_throughVersion]
    exact isDirectory_throughDir hshort rfl
  obtain ⟨j, hrun⟩ := execute_fetchSource_missing versionRunner repositoryUrl hmissing
  have hmake : execute (Action.mapError RetrievalError.file
      (makeStaging ⟨"", ["schemas"]⟩ (throughVersion (w.suffixes 0)))) { w with journal := j } =
        (.ok (throughStaging (w.suffixes 0)), ⟨leadingTrees [(throughName (w.suffixes 0), .dir [])]
          (throughName (w.suffixes 0)), w.later, j, w.commands⟩) := by
    rw [Action.execute_mapError,
      execute_makeStaging_through (w := { w with journal := j }) hshort htree]
    rfl
  obtain ⟨w', hclone, hleft⟩ := execute_cloneStaged_through hshort
    (w := ⟨leadingTrees [(throughName (w.suffixes 0), .dir [])] (throughName (w.suffixes 0)),
      w.later, j, w.commands⟩) rfl (throughVersion (w.suffixes 0))
  rw [hrun, execute_bind_ok hmake, versionDir_throughVersion]
  refine ⟨w', hclone, ?_⟩
  rw [hleft]
  exact isDirectory_throughDir hshort (by simp [Entries.get?, ne_throughName])

end Through

/-- The way to the directory of a version can lead through its staging directory. Such a version is
returned, but afterwards there is no such way. -/
theorem fetchSource_throughStaging : ∃ w',
    execute (fetchSource versionRunner repositoryUrl ⟨"", ["schemas"]⟩ "a/b-tmp0/../../va/b")
        (.ofTree (leadingTrees [] "b-tmp0")) =
      (.ok ⟨"a/b-tmp0/../../va/b", versionDir ⟨"", ["schemas"]⟩ "a/b-tmp0/../../va/b"⟩, w') ∧
    w'.tree.isDirectory (versionDir ⟨"", ["schemas"]⟩ "a/b-tmp0/../../va/b") = .ok false := by
  have hname : "b-tmp0" = throughName (.numbered 0) := by decide +kernel
  have hversion : "a/b-tmp0/../../va/b" = throughVersion (.numbered 0) := by decide +kernel
  rw [hname, hversion]
  exact execute_fetchSource_through (w := .ofTree (leadingTrees [] (throughName (.numbered 0))))
    (by decide +kernel) rfl

end EventSchema
