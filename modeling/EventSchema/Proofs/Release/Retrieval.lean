import EventSchema.Proofs.Workspaces
import EventSchema.Release.Generation
import Mathlib.Data.List.Basic

/-!
# Schema trees that are there

Without downloads the schema trees that are there are had and the other versions fail
(`execute_retrieveAll_local`), unless a directory cannot be looked at
(`execute_retrieveAll_local_error`). Nothing but the journal changes on the way.
-/

namespace EventSchema

variable {tree : FileTree} {schemas : Path} {versions : List String} {present : Bool} {v : String}
  {w : Workspace}

/-! ### Directories of versions -/

/-- The versions whose directories are there, or those whose directories are not. -/
def versionsWhere (present : Bool) (tree : FileTree) (schemas : Path) (versions : List String) :
    List String :=
  versions.filter fun v ↦ (tree.isDirectory (versionDir schemas v)).toOption == some present

theorem mem_versionsWhere :
    v ∈ versionsWhere present tree schemas versions ↔
      v ∈ versions ∧ tree.isDirectory (versionDir schemas v) = .ok present := by
  rw [versionsWhere, List.mem_filter, beq_iff_eq]
  refine and_congr_right fun _ ↦ ?_
  cases tree.isDirectory (versionDir schemas v) with
  | error e => exact ⟨nofun, nofun⟩
  | ok found => exact ⟨fun h ↦ congrArg Except.ok (Option.some.inj h), congrArg Except.toOption⟩

theorem versionsWhere_cons {found : Bool}
    (h : tree.isDirectory (versionDir schemas v) = .ok found) :
    versionsWhere present tree schemas (v :: versions) =
      if found = present then v :: versionsWhere present tree schemas versions
      else versionsWhere present tree schemas versions := by
  rw [versionsWhere, List.filter_cons, h]
  cases found <;> cases present <;> rfl

theorem versionsWhere_filter (keep : String → Bool) :
    versionsWhere present tree schemas (versions.filter keep) =
      (versionsWhere present tree schemas versions).filter keep :=
  List.filter_comm _ _ _

/-- The schema trees that are there. -/
def localSources (tree : FileTree) (schemas : Path) (versions : List String) : List Source :=
  (versionsWhere true tree schemas versions).map fun v ↦ ⟨v, versionDir schemas v⟩

/-- The failures of the versions whose schema trees are not there. -/
def missingFailures (tree : FileTree) (schemas : Path) (versions : List String) :
    List VersionFailure :=
  (versionsWhere false tree schemas versions).map
    fun v ↦ ⟨v, (RetrievalError.notPresent v (versionDir schemas v)).message⟩

theorem mem_localSources {source : Source} :
    source ∈ localSources tree schemas versions ↔
      ∃ v ∈ versions, tree.isDirectory (versionDir schemas v) = .ok true ∧
        source = ⟨v, versionDir schemas v⟩ := by
  simp only [localSources, List.mem_map, mem_versionsWhere, and_assoc, eq_comm]

theorem mem_missingFailures {f : VersionFailure} :
    f ∈ missingFailures tree schemas versions ↔
      ∃ v ∈ versions, tree.isDirectory (versionDir schemas v) = .ok false ∧
        f = ⟨v, (RetrievalError.notPresent v (versionDir schemas v)).message⟩ := by
  simp only [missingFailures, List.mem_map, mem_versionsWhere, and_assoc, eq_comm]

/-- No version fails that has its schema tree there. -/
theorem missingFailures_eq_nil
    (h : ∀ v ∈ versions, tree.isDirectory (versionDir schemas v) = .ok true) :
    missingFailures tree schemas versions = [] := List.eq_nil_iff_forall_not_mem.2 fun f hf ↦ by
  obtain ⟨v, hv, hnone, -⟩ := mem_missingFailures.1 hf
  cases (h v hv).symm.trans hnone

theorem localSources_filter (keep : String → Bool) :
    localSources tree schemas (versions.filter keep) =
      (localSources tree schemas versions).filter fun s ↦ keep s.version := by
  rw [localSources, localSources, versionsWhere_filter, List.filter_map]
  rfl

theorem missingFailures_filter (keep : String → Bool) :
    missingFailures tree schemas (versions.filter keep) =
      (missingFailures tree schemas versions).filter fun f ↦ keep f.version := by
  rw [missingFailures, missingFailures, versionsWhere_filter, List.filter_map]
  rfl

/-! ### Retrieval -/

theorem execute_localSource (schemas : Path) (version : String) (w : Workspace) :
    execute (localSource schemas version) w =
      (match w.tree.isDirectory (versionDir schemas version) with
        | .ok true => .ok ⟨version, versionDir schemas version⟩
        | .ok false => .error (.notPresent version (versionDir schemas version))
        | .error e => .error (.file e), w) := by
  have hpresent : execute (isPresent (versionDir schemas version)) w =
      ((w.tree.isDirectory (versionDir schemas version)).mapError .file, w) := rfl
  unfold localSource
  rw [execute_bind, hpresent]
  rcases w.tree.isDirectory (versionDir schemas version) with e | _ | _ <;> rfl

/-- A version that is there is had, and the others are tried. -/
theorem execute_retrieveAll_cons_present (h : w.tree.isDirectory (versionDir schemas v) = .ok true)
    (found : Retrieved) :
    execute (retrieveAll (localSource schemas) found (v :: versions)) w =
      execute (retrieveAll (localSource schemas)
        { found with sources := found.sources ++ [⟨v, versionDir schemas v⟩] } versions) w := by
  rw [retrieveAll, execute_bind_ok (Action.execute_attempt _ w), execute_localSource, h]

/-- A version that is not there is reported, and the others are tried. -/
theorem execute_retrieveAll_cons_missing (h : w.tree.isDirectory (versionDir schemas v) = .ok false)
    (found : Retrieved) :
    ∃ j, execute (retrieveAll (localSource schemas) found (v :: versions)) w =
      execute (retrieveAll (localSource schemas) { found with failures := found.failures ++
        [⟨v, (RetrievalError.notPresent v (versionDir schemas v)).message⟩] } versions)
          { w with journal := j } := by
  have hversion : (RetrievalError.notPresent v (versionDir schemas v)).isOfVersion = true := rfl
  rw [retrieveAll, execute_bind_ok (Action.execute_attempt _ w), execute_localSource, h]
  simp only [hversion, if_true]
  exact ⟨_, execute_bind_ok (Action.execute_report _ _ w)⟩

/-- If the directories of all versions can be looked at, the trees that are there are had, and the
other versions fail. -/
theorem execute_retrieveAll_local
    (h : ∀ v ∈ versions, ∃ b, w.tree.isDirectory (versionDir schemas v) = .ok b)
    (found : Retrieved) :
    ∃ j, execute (retrieveAll (localSource schemas) found versions) w =
      (.ok ⟨found.sources ++ localSources w.tree schemas versions,
        found.failures ++ missingFailures w.tree schemas versions⟩, { w with journal := j }) := by
  induction versions generalizing w found with
  | nil =>
    refine ⟨w.journal, ?_⟩
    have hnone : ∀ b, versionsWhere b w.tree schemas [] = [] := fun b ↦ rfl
    simp only [localSources, missingFailures, hnone, List.map_nil, List.append_nil]
    rfl
  | cons v rest ih =>
    obtain ⟨b, hb⟩ := h v List.mem_cons_self
    have hrest := fun v' hv' ↦ h v' (List.mem_cons_of_mem v hv')
    have hcons : ∀ b', versionsWhere b' w.tree schemas (v :: rest) = _ :=
      fun b' ↦ versionsWhere_cons hb
    cases b with
    | true =>
      obtain ⟨j, hrun⟩ :=
        ih hrest { found with sources := found.sources ++ [⟨v, versionDir schemas v⟩] }
      refine ⟨j, (execute_retrieveAll_cons_present hb found).trans (hrun.trans ?_)⟩
      simp only [localSources, missingFailures, hcons, if_true, List.map_cons, List.append_assoc,
        List.singleton_append, Bool.true_eq_false, if_false]
    | false =>
      obtain ⟨j, hstep⟩ := @execute_retrieveAll_cons_missing schemas rest v _ hb found
      obtain ⟨j', hrun⟩ := ih (w := { w with journal := j }) hrest { found with failures :=
        found.failures ++ [⟨v, (RetrievalError.notPresent v (versionDir schemas v)).message⟩] }
      refine ⟨j', hstep.trans (hrun.trans ?_)⟩
      simp only [localSources, missingFailures, hcons, if_true, List.map_cons, List.append_assoc,
        List.singleton_append, Bool.false_eq_true, if_false]

/-- If not, a directory that cannot be looked at stops the run. -/
theorem execute_retrieveAll_local_error
    (h : ¬∀ v ∈ versions, ∃ b, w.tree.isDirectory (versionDir schemas v) = .ok b)
    (found : Retrieved) :
    ∃ e, (execute (retrieveAll (localSource schemas) found versions) w).1 = .error (.file e) := by
  induction versions generalizing w found with
  | nil => exact absurd nofun h
  | cons v rest ih =>
    rcases hb : w.tree.isDirectory (versionDir schemas v) with e | b
    · refine ⟨e, ?_⟩
      rw [retrieveAll, execute_bind_ok (Action.execute_attempt _ w), execute_localSource, hb]
      rfl
    -- this directory can be looked at, so a later one cannot
    have hrest : ¬∀ v ∈ rest, ∃ b, w.tree.isDirectory (versionDir schemas v) = .ok b := by
      intro hall
      refine h fun v' hv' ↦ ?_
      rcases List.mem_cons.1 hv' with rfl | hv'
      · exact ⟨b, hb⟩
      · exact hall v' hv'
    cases b with
    | true =>
      rw [execute_retrieveAll_cons_present hb]
      exact ih hrest _
    | false =>
      obtain ⟨j, hstep⟩ := @execute_retrieveAll_cons_missing schemas rest v _ hb found
      rw [hstep]
      exact ih (w := { w with journal := j }) hrest _

end EventSchema
