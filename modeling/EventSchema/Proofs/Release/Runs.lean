import EventSchema.Proofs.Release.Fetching
import EventSchema.Proofs.Release.Generation
import EventSchema.Proofs.Release.Packages

/-!
# What a run leaves

A run that comes to its end has dealt with each version once, compiled the trees that it had in the
order of the versions, and then settled the alias (`course_of_generate`). What it leaves is
`Leaves`: its failures are those of the versions without a tree and of the trees that failed at
their turns; a version that is not among them has the package of its tree at its last turn, and that
stands at its place unless the package of a later version came to stand at, above or below it
(`generate_leaves`). Versions that differ in nothing but the patch share a place, so the last of
them that is compiled has its package there, and the alias of an earlier one leads to that
(`generate_bareTrees_patch`).
-/

namespace EventSchema

open EventSchema.Action EventSchema.Path FileTree Package

variable {run : Runner} {output : Path} {source : Source} {sources : List Source} {v u : String}
  {w w' : Workspace} {t t' : FileTree} {files : Table String} {apart : Bool}

/-! ### What a run leaves -/

variable {p : GenerationPlan} {failures : List VersionFailure}

/-- The last turn of a version, after some and before others. -/
structure LastTurn (sources : List Source) (version : String) (earlier : List Source) (path : Path)
    (later : List Source) : Prop where
  eq : sources = earlier ++ ⟨version, path⟩ :: later
  last : version ∉ later.map (·.version)

/-- A version that has a tree has a last turn. -/
theorem exists_lastTurn {version : String} (h : version ∈ sources.map (·.version)) :
    ∃ earlier path later, LastTurn sources version earlier path later := by
  induction sources with
  | nil => cases h
  | cons source rest ih =>
    by_cases hlater : version ∈ rest.map (·.version)
    · obtain ⟨earlier, path, later, heq, hlast⟩ := ih hlater
      exact ⟨source :: earlier, path, later, congrArg (source :: ·) heq, hlast⟩
    · obtain rfl := (List.mem_cons.1 h).resolve_right hlater
      exact ⟨[], source.path, rest, rfl, hlater⟩

theorem afterVersions_append (earlier later : List Source) :
    afterVersions apart output w (earlier ++ later) =
      afterVersions apart output (afterVersions apart output w earlier) later := List.foldl_append

theorem afterVersions_cons (source : Source) (later : List Source) :
    afterVersions apart output w (source :: later) =
      afterVersions apart output (afterVersion apart output w source) later := rfl

theorem afterVersions_concat (earlier : List Source) (source : Source) :
    afterVersions apart output w (earlier ++ [source]) =
      afterVersion apart output (afterVersions apart output w earlier) source :=
  List.foldl_concat ..

/-- A version that does not fail at any turn has its package in the end, unless a later one disturbs
it. -/
theorem exists_package (hread : output.IsRead) (hcontained : ContainedFrom apart output w sources)
    (hthrough : ∀ source ∈ sources, ¬ output.LeadsThrough (placeOf output source.version).trail)
    (hok : ∀ source e, (source, .error e) ∈ outcomesFrom apart output w sources →
      source.version ≠ v)
    (hv : v ∈ sources.map (·.version)) : ∃ earlier path later plan files,
      LastTurn sources v earlier path later ∧
      Source.package (afterVersions apart output w earlier).tree ⟨v, path⟩ = .ok (plan, files) ∧
      files.get? initFile = some (rootText (.str v)) ∧
      (Undisturbed apart output (afterVersions apart output w (earlier ++ [⟨v, path⟩])) later v →
        Holds (afterVersions apart output w sources).tree
          (placeOf output v).trail files.entries) := by
  obtain ⟨earlier, path, later, hturn⟩ := exists_lastTurn hv
  obtain rfl := hturn.eq
  obtain ⟨-, hthrough⟩ := List.forall_mem_append.1 hthrough
  obtain ⟨hthis, hlater⟩ := List.forall_mem_cons.1 hthrough
  have hcontained := hcontained.drop
  have hcompiled : (execute (compile output ⟨v, path⟩)
      (afterVersions apart output w earlier)).1.isOk = true := by
    rcases hrun :
      (execute (compile output ⟨v, path⟩) (afterVersions apart output w earlier)).1 with e | c
    · exact absurd rfl (hok ⟨v, path⟩ e (mem_outcomesFrom.2 ⟨earlier, later, rfl, hrun.symm⟩))
    · rfl
  obtain ⟨p, files, hpackage, hroot, hdots, hholds⟩ :=
    holds_of_compile apart hread hcontained.head hthis hcompiled
  refine ⟨earlier, path, later, p, files, hturn, hpackage, hroot, fun hundisturbed ↦ ?_⟩
  rw [afterVersions_concat] at hundisturbed
  rw [afterVersions_append, afterVersions_cons]
  exact holds_afterVersions hholds hread hdots hcontained.tail hthis hlater hundisturbed

/-- What a run retrieves for a version is a tree of that version. -/
theorem ofOwnVersion_retrieve (run : Runner) (p : GenerationPlan) :
    OfOwnVersion (p.retrieve run) := by
  intro v w source w' h
  rw [GenerationPlan.retrieve] at h
  split at h
  · exact ofOwnVersion_fetchSource _ _ _ v w source w' h
  · rw [execute_localSource] at h
    rcases hfound : w.tree.isDirectory (versionDir p.schemas v) with e | _ | _ <;>
      rw [hfound] at h <;> cases h
    rfl

/-- Failures are listed in the order of the versions. -/
theorem pairwise_inVersionOrder (versions : List String) (failures : List VersionFailure) :
    (inVersionOrder versions failures).Pairwise
      fun f g ↦ versions.idxOf f.version ≤ versions.idxOf g.version :=
  (List.pairwise_mergeSort (fun a b c hab hbc ↦ decide_eq_true
    ((of_decide_eq_true hab).trans (of_decide_eq_true hbc)))
    (fun a b ↦ by simpa using Nat.le_total _ _) failures).imp of_decide_eq_true

/-- The course of a run that comes to its end. -/
theorem course_of_generate (h : (execute (generate run p) w).1 = .ok failures) :
    ∃ (found : Retrieved) (w₁ : Workspace) (compiled : List VersionFailure) (w₂ : Workspace),
      execute (retrieveAll (p.retrieve run) default p.versions) w = (.ok found, w₁) ∧
      execute (compileAll p.output p.jobs found.sources) w₁ = (.ok compiled, w₂) ∧
      failures = inVersionOrder p.versions (found.failures ++ compiled) ∧
      (execute (settleLatest p (failedVersions failures)) w₂).1 = .ok () ∧
      (execute (generate run p) w).2.tree =
        (execute (settleLatest p (failedVersions failures)) w₂).2.tree := by
  unfold generate at h ⊢
  obtain ⟨found, w₁, hfound, h⟩ := execute_bind_eq_ok h
  rw [execute_bind_ok hfound]
  obtain ⟨compiled, w₂, hcompiled, h⟩ := execute_bind_eq_ok h
  rw [execute_bind_ok hcompiled]
  have hconclude := execute_conclude p (inVersionOrder p.versions (found.failures ++ compiled)) w₂
  have hrun := hconclude.1.symm.trans h
  rcases hlatest : (execute (settleLatest p (failedVersions (inVersionOrder p.versions
    (found.failures ++ compiled)))) w₂).1 with e | u
  · rw [hlatest] at hrun
    cases hrun
  · rw [hlatest] at hrun
    obtain rfl := Except.ok.inj hrun
    exact ⟨found, w₁, compiled, w₂, Action.execute_mapError_eq_ok hfound,
      Action.execute_mapError_eq_ok hcompiled, rfl, hlatest, hconclude.2⟩

/-- The alias is written for a version that was asked for and did not fail, and otherwise nothing
changes. -/
theorem ends_settleLatest (p : GenerationPlan) (failed : List String) (t : FileTree) :
    Ends (settleLatest p failed) t fun r u ↦
      (p.latest ∈ p.versions ∧ p.latest ∉ failed → Aliasing p.output p.latest t r u) ∧
        (¬ (p.latest ∈ p.versions ∧ p.latest ∉ failed) → u = t) := by
  unfold settleLatest
  split
  case isTrue hasked =>
    have hnot : p.latest ∉ p.versions := by simpa using hasked
    exact .report ⟨fun hboth ↦ absurd hboth.1 hnot, fun _ ↦ rfl⟩
  split
  case isTrue hfailed =>
    exact .report ⟨fun hboth ↦ absurd (List.contains_iff_mem.1 hfailed) hboth.2, fun _ ↦ rfl⟩
  case isFalse hasked hfailed =>
    have hboth : p.latest ∈ p.versions ∧ p.latest ∉ failed := by
      rw [Bool.not_eq_true', Bool.not_eq_false, List.contains_iff_mem] at hasked
      exact ⟨hasked, fun hmem ↦ hfailed (List.contains_iff_mem.2 hmem)⟩
    have hemit : Ends (Action.mapError GenerationError.latest (emitLatest p.output p.latest)) t
        (Aliasing p.output p.latest t) :=
      ((ends_emitLatest p.output p.latest t).mono fun r u hu ↦ by cases r <;> exact hu).mapError
    have hwritten : Ends (do
        let _ ← Action.mapError GenerationError.latest (emitLatest p.output p.latest)
        pure ()) t (Aliasing p.output p.latest t) :=
      hemit.bind (fun _ _ hu ↦ .pure hu) fun _ _ hu ↦ hu
    exact hwritten.mono fun r u hu ↦ ⟨fun _ ↦ hu, fun hnot ↦ absurd hboth hnot⟩

/-- In a run from a workspace, the files of the packages stay below their places. -/
def GenerationPlan.Contained (run : Runner) (p : GenerationPlan) (w : Workspace) : Prop :=
  ∀ sources missing w₁, Dealt (p.retrieve run) w p.versions sources missing w₁ →
    ContainedFrom (isApart p.jobs sources) p.output w₁ sources

/-- What a run leaves that comes to its end. -/
structure Leaves (p : GenerationPlan) (sources : List Source)
    (missing failures : List VersionFailure) (w : Workspace) (t : FileTree) : Prop where
  /-- The failures are those of the versions without a tree and of the trees that failed at their
  turns. -/
  mem_failures : ∀ f, f ∈ failures ↔ f ∈ missing ∨ ∃ source e,
    (source, .error e) ∈ outcomesFrom (isApart p.jobs sources) p.output w sources ∧
    f = ⟨source.version, e.message⟩
  /-- They are in the order of the versions. -/
  ordered : failures.Pairwise fun f g ↦ p.versions.idxOf f.version ≤ p.versions.idxOf g.version
  /-- A version that did not fail has a package, that of its tree at its last turn. The package
  states the version and stands at its place, unless the package of a version that was compiled
  later disturbs it. -/
  package : ∀ v ∈ p.versions, v ∉ failedVersions failures → ∃ earlier path later plan files,
    LastTurn sources v earlier path later ∧
    Source.package (afterVersions (isApart p.jobs sources) p.output w earlier).tree ⟨v, path⟩ =
      .ok (plan, files) ∧
    files.get? initFile = some (rootText (.str v)) ∧
    (Undisturbed (isApart p.jobs sources) p.output
        (afterVersions (isApart p.jobs sources) p.output w (earlier ++ [⟨v, path⟩])) later v →
      Holds t (placeOf p.output v).trail files.entries)
  /-- The alias is written for the latest version if that was asked for and did not fail. -/
  written : p.latest ∈ p.versions → p.latest ∉ failedVersions failures →
    t.view (p.output.trail ++ ["latest.py"]) = some (.file (latestText p.latest))
  /-- Otherwise nothing is written at the alias. -/
  unwritten : ¬ (p.latest ∈ p.versions ∧ p.latest ∉ failedVersions failures) →
    GrownAt p.output w.tree t (p.output.trail ++ ["latest.py"])

/-- The package of a version that did not fail stands at its place if that is apart from those of
the others. -/
theorem Leaves.holds {missing : List VersionFailure} (h : Leaves p sources missing failures w t)
    (hsources : ∀ source ∈ sources, source.version ∈ p.versions) (hv : v ∈ p.versions)
    (hfailed : v ∉ failedVersions failures)
    (hapart : ∀ u ∈ p.versions, u ≠ v →
      Incomparable (placeOf p.output v).trail (placeOf p.output u).trail) :
    ∃ earlier path later plan files, LastTurn sources v earlier path later ∧
      Source.package (afterVersions (isApart p.jobs sources) p.output w earlier).tree ⟨v, path⟩ =
        .ok (plan, files) ∧
      files.get? initFile = some (rootText (.str v)) ∧
      Holds t (placeOf p.output v).trail files.entries := by
  obtain ⟨earlier, path, later, plan, files, hturn, hpackage, hroot, hholds⟩ :=
    h.package v hv hfailed
  refine ⟨earlier, path, later, plan, files, hturn, hpackage, hroot,
    hholds (undisturbed_of_apart fun source hmem ↦ ?_)⟩
  refine hapart _ (hsources source ?_) fun heq ↦ hturn.last (List.mem_map.2 ⟨source, hmem, heq⟩)
  rw [hturn.eq]
  exact List.mem_append_right _ (List.mem_cons_of_mem _ hmem)

/-- Emit the package of a version without entities. -/
def emitBare (output : Path) (version : String) : Action EmitError Path :=
  emit (bareSchemaOf version) nothingLate output

/-- Where the package of a version without entities was emitted, it stands. -/
theorem holds_emitBare (hread : output.IsRead)
    (hthrough : ¬ output.LeadsThrough (placeOf output v).trail)
    (hok : (execute (emitBare output v) w).1.isOk = true) :
    Holds (execute (emitBare output v) w).2.tree (placeOf output v).trail
      (bareFilesOf v).entries := by
  have hemit : Emitting (bareSchemaOf v) nothingLate output w.tree (execute (emitBare output v) w).1
      (execute (emitBare output v) w).2.tree := by
    refine ends_emit hread (fun p files hfiles ↦ ?_) (fun version hversion ↦ ?_) w rfl
    · obtain ⟨-, rfl⟩ :=
        Prod.mk.inj (Except.ok.inj ((packageFiles_bareSchemaOf v).symm.trans hfiles))
      exact contained_bareFilesOf v
    · rwa [← Json.str.inj hversion]
  generalize hr : (execute (emitBare output v) w).1 = r at hemit hok
  cases hemit with
  | placed hversion hfiles hholds hfile hkept =>
    obtain rfl := Json.str.inj hversion
    obtain ⟨-, rfl⟩ := Prod.mk.inj (Except.ok.inj ((packageFiles_bareSchemaOf v).symm.trans hfiles))
    exact hholds
  | refused hgrown => cases hok
  | stranded n => cases hok

/-- A schema tree without entities stands at a path. -/
structure Bare (t : FileTree) (path : Path) : Prop where
  directory : t.isDirectory path = .ok true
  version : t.textAt (path.child "version.json") = .ok "\x7b\"version\": \"1.7.0\"\x7d"
  categories : t.textAt (path.child "categories.json") = .ok "\x7b\x7d"
  dictionary : t.textAt (path.child "dictionary.json") = .ok "\x7b\x7d"
  folders : ∀ folder ∈ ["events", "objects", "profiles"],
    t.pathExists (path.child folder) = .ok false

namespace Bare

variable {path : Path}

instance : Decidable (Bare t path) :=
  decidable_of_iff (t.isDirectory path = .ok true ∧
      t.textAt (path.child "version.json") = .ok "\x7b\"version\": \"1.7.0\"\x7d" ∧
      t.textAt (path.child "categories.json") = .ok "\x7b\x7d" ∧
      t.textAt (path.child "dictionary.json") = .ok "\x7b\x7d" ∧
      ∀ folder ∈ ["events", "objects", "profiles"], t.pathExists (path.child folder) = .ok false)
    ⟨fun h ↦ ⟨h.1, h.2.1, h.2.2.1, h.2.2.2.1, h.2.2.2.2⟩, fun h ↦ ⟨h.1, h.2, h.3, h.4, h.5⟩⟩

/-- A schema tree without entities is read as a catalog without entities. -/
theorem read (h : Bare t path) :
    (Catalog.read t path).outcome.1 = .ok ⟨.str "1.7.0", .empty, .empty, .empty, .empty⟩ := by
  have hitems {folder : String} (hfolder : folder ∈ ["events", "objects", "profiles"]) :
      Catalog.readItems t path folder = .ok [] :=
    Catalog.readItems_of_not_exists (h.folders folder hfolder)
  have hversion : Catalog.readVersion t path = .ok (.str "1.7.0") := by
    rw [Catalog.readVersion, Catalog.readObject, h.version]
    rfl
  have hcategories : Catalog.readObject t (path.child "categories.json") = .ok [] := by
    rw [Catalog.readObject, h.categories]
    rfl
  have hdictionary : Catalog.readObject t (path.child "dictionary.json") = .ok [] := by
    rw [Catalog.readObject, h.dictionary]
    rfl
  have hincludes :
      ∀ j, execute (Catalog.resolveIncludes t path [] [] []) j = (.ok ([], []), j) := fun _ ↦ rfl
  have henums : Catalog.readSharedEnums [] = .ok .empty :=
    Catalog.readSharedEnums_of_plain (List.forall_mem_nil _)
  rw [Catalog.outcome_read h.directory hversion hcategories hdictionary rfl rfl rfl
    (hitems (by simp)) (hitems (by simp)) (hitems (by simp)) hincludes rfl, henums]
  rfl

/-- Such a tree has the package without entities, whatever version is asked for. -/
theorem package (h : Bare t path) (version : String) :
    Source.package t ⟨version, path⟩ = .ok (barePlanOf version, bareFilesOf version) := by
  have hresolve : (Catalog.resolve ⟨.str version, .empty, .empty, .empty, .empty⟩).outcome.1 =
      .ok (bareSchemaOf version) := rfl
  have hdefer : (ReferenceGraph.ofObjects .empty).defer.outcome.1 = .ok nothingLate := by
    rw [ReferenceGraph.ofObjects_of_ascending .nil]
    rfl
  have hobjects : (bareSchemaOf version).objects = .empty := rfl
  rw [Source.package, h.read]
  change Catalog.package ⟨.str version, .empty, .empty, .empty, .empty⟩ = _
  rw [Catalog.package, hresolve]
  simp only [mapError_ok, bind, Except.bind, hobjects, hdefer, packageFiles_bareSchemaOf]

/-- A version with such a tree is compiled as the package without entities is emitted. -/
theorem compile (h : Bare w.tree path) (output : Path) (version : String) (hlike : w.Alike w') :
    (execute (EventSchema.compile output ⟨version, path⟩) w).1.isOk =
      (execute (emitBare output version) w').1.isOk ∧
      (execute (EventSchema.compile output ⟨version, path⟩) w).2.Alike
        (execute (emitBare output version) w').2 := by
  obtain ⟨-, -, hok, hafter⟩ := execute_compile_of_package (h.package version) output
  obtain ⟨hsame, hlike⟩ := (appends_emit (bareSchemaOf version) nothingLate output).alike hlike
  exact ⟨hok.trans (congrArg Except.isOk hsame), hafter.trans hlike⟩

end Bare

/-- A schema tree without entities. -/
def bareTree : FileTree := .dir [("version.json", .file "\x7b\"version\": \"1.7.0\"\x7d"),
  ("categories.json", .file "\x7b\x7d"), ("dictionary.json", .file "\x7b\x7d")]

/-- A directory of such trees. -/
def bareTrees : FileTree :=
  .dir [("schemas", .dir [("v1.6.0", bareTree), ("v1.7.0", bareTree), ("v1.7.1", bareTree)])]

/-- The directory of a version of these trees. -/
def bareDir (version : String) : Path := versionDir (.ofString "schemas") version

/-- A plan for two versions of these trees, with 1.7.0 as the latest one. -/
def barePlanFor (u v : String) : GenerationPlan where
  versions := [u, v]
  schemas := .ofString "schemas"
  output := .ofString "out"
  latest := "1.7.0"
  jobs := 1
  download := false

/-- The workspace after the packages of versions without entities were emitted. -/
def emittedBare (versions : List String) : Workspace :=
  versions.foldl (fun w version ↦ (execute (emitBare (.ofString "out") version) w).2)
    (.ofTree bareTrees)

/-- The packages of two versions of these trees can be emitted one after the other, and then the
alias. -/
def Emittable (u v : String) : Prop :=
  (execute (emitBare (.ofString "out") u) (.ofTree bareTrees)).1.isOk = true ∧
    Bare (emittedBare [u]).tree (bareDir v) ∧
    (execute (emitBare (.ofString "out") v) (emittedBare [u])).1.isOk = true ∧
    (execute (emitLatest (.ofString "out") "1.7.0") (emittedBare [u, v])).1.isOk = true

/-- The trees of the directory have no entities. -/
theorem bare_bareTrees :
    ∀ version ∈ ["1.6.0", "1.7.0", "1.7.1"], Bare bareTrees (bareDir version) := by
  decide +kernel

/-- In the end the package of the second version stands at its place, next to the alias. -/
theorem Emittable.leaves {u v : String} (h : Emittable u v) :
    Holds (execute (emitLatest (.ofString "out") "1.7.0") (emittedBare [u, v])).2.tree
        (placeOf (.ofString "out") v).trail (bareFilesOf v).entries ∧
      (execute (emitLatest (.ofString "out") "1.7.0") (emittedBare [u, v])).2.tree.view
        ((Path.ofString "out").trail ++ ["latest.py"]) = some (.file (latestText "1.7.0")) := by
  obtain ⟨-, -, hemitted, halias⟩ := h
  have haliasing := ends_emitLatest (.ofString "out") "1.7.0" _ (emittedBare [u, v]) rfl
  have hholds := holds_emitBare (isRead_ofString "out")
    (not_leadsThrough_of_plain (by decide +kernel) v) hemitted
  exact ⟨hholds.aliasing haliasing, haliasing.1 halias⟩

/-- Packages of versions that differ in their minor part can be emitted one after the other. -/
theorem emittable_minor : Emittable "1.6.0" "1.7.0" := by
  simp only [Emittable, emittedBare, List.foldl_cons, List.foldl_nil, emitBare,
    execute_emit_bareSchemaOf]
  decide +kernel

/-- Packages of versions that differ in their patch alone can be emitted one after the other. -/
theorem emittable_patch : Emittable "1.7.0" "1.7.1" := by
  simp only [Emittable, emittedBare, List.foldl_cons, List.foldl_nil, emitBare,
    execute_emit_bareSchemaOf]
  decide +kernel

/-- One of two trees is the first or the second of them. -/
theorem eq_of_pair_eq_append {a b : Source} {earlier later : List Source}
    (h : [a, b] = earlier ++ source :: later) :
    earlier = [] ∧ source = a ∨ earlier = [a] ∧ source = b := by
  match earlier with
  | [] => exact .inl ⟨rfl, (List.cons.inj h).1.symm⟩
  | [first] =>
    obtain ⟨rfl, hrest⟩ := List.cons.inj h
    exact .inr ⟨rfl, (List.cons.inj hrest).1.symm⟩
  | _ :: _ :: rest =>
    obtain ⟨-, hrest⟩ := List.cons.inj h
    obtain ⟨-, hrest⟩ := List.cons.inj hrest
    cases rest <;> cases hrest

/-- Two such trees have the package without entities at their turns if they are there then. -/
theorem package_bare_pair {u v : String} {pu pv : Path} (hu : Bare w.tree pu)
    (hv : Bare (afterVersion apart output w ⟨u, pu⟩).tree pv) {earlier later : List Source}
    (hsources : [⟨u, pu⟩, ⟨v, pv⟩] = earlier ++ source :: later) :
    source.package (afterVersions apart output w earlier).tree =
      .ok (barePlanOf source.version, bareFilesOf source.version) := by
  rcases eq_of_pair_eq_append hsources with ⟨rfl, rfl⟩ | ⟨rfl, rfl⟩
  · exact hu.package u
  · exact hv.package v

variable {u : String}

/-- A version that is compiled adds no failure. -/
theorem settled_cons_ok {r : Except CompileError Compiled}
    {outcomes : List (Source × Except CompileError Compiled)}
    (hr : r.isOk = true) (h : settled outcomes = .ok []) :
    settled ((source, r) :: outcomes) = .ok [] := by
  cases r with
  | error e => cases hr
  | ok c =>
    rw [settled, settledVersion, h]
    rfl

/-- A version that fails for a reason of its own is listed among the failures. -/
theorem settled_cons_error {e : CompileError}
    {outcomes : List (Source × Except CompileError Compiled)} (he : e.isOfVersion = true)
    (h : settled outcomes = .ok failures) :
    settled ((source, .error e) :: outcomes) = .ok (⟨source.version, e.message⟩ :: failures) := by
  rw [settled, settledVersion, if_pos he, h]
  rfl

/-- Two such trees are compiled one after the other if their packages can be emitted one after the
other. -/
theorem compiled_pair {pu pv : Path} {w₁ : Workspace} (hlike : w.Alike w₁) (hu : Bare w.tree pu)
    (hfirst : (execute (emitBare output u) w₁).1.isOk = true)
    (hv : Bare (execute (emitBare output u) w₁).2.tree pv)
    (hsecond : (execute (emitBare output v) (execute (emitBare output u) w₁).2).1.isOk = true) :
    Bare (afterVersion false output w ⟨u, pu⟩).tree pv ∧
      settled (outcomesFrom false output w [⟨u, pu⟩, ⟨v, pv⟩]) = .ok [] ∧
      (afterVersions false output w [⟨u, pu⟩, ⟨v, pv⟩]).Alike
        (execute (emitBare output v) (execute (emitBare output u) w₁).2).2 := by
  obtain ⟨hok, hafter⟩ := hu.compile output u hlike
  have hv : Bare (execute (compile output ⟨u, pu⟩) w).2.tree pv := by rwa [hafter.tree]
  obtain ⟨hok', hafter'⟩ := hv.compile output v hafter
  refine ⟨hv, ?_, hafter'⟩
  exact settled_cons_ok (hok.trans hfirst) (settled_cons_ok (hok'.trans hsecond) rfl)

/-- The alias of a version that was asked for and did not fail is written. -/
theorem execute_settleLatest {failed : List String} (hasked : p.latest ∈ p.versions)
    (hfailed : p.latest ∉ failed) (hok : (execute (emitLatest p.output p.latest) w).1.isOk = true) :
    (execute (settleLatest p failed) w).1 = .ok () ∧
      (execute (settleLatest p failed) w).2.tree =
        (execute (emitLatest p.output p.latest) w).2.tree := by
  have hrun : execute (settleLatest p failed) w = execute (do
      let _ ← Action.mapError GenerationError.latest (emitLatest p.output p.latest)
      pure ()) w := by
    rw [settleLatest, List.contains_iff_mem.2 hasked, if_neg (by simp),
      if_neg (by simpa using hfailed)]
  rw [hrun, execute_bind, Action.execute_mapError]
  rcases hemit : execute (emitLatest p.output p.latest) w with ⟨e | path, w'⟩
  · rw [hemit] at hok
    cases hok
  · exact ⟨rfl, rfl⟩

/-- A run without downloads whose outcomes settle lists their failures, and writes the alias if that
can be emitted after them. -/
theorem execute_generate_of_settled (run : Runner) (hp : p.download = false)
    (hreach : p.Reaches w.tree) (hsettled : settled
      (outcomesFrom (isApart p.jobs (p.sources w.tree)) p.output w (p.sources w.tree)) =
      .ok failures)
    (hafter : (afterVersions (isApart p.jobs (p.sources w.tree)) p.output w
      (p.sources w.tree)).Alike w')
    (hasked : p.latest ∈ p.versions)
    (hfailed : p.latest ∉ failedVersions (p.failuresOf w.tree failures))
    (halias : (execute (emitLatest p.output p.latest) w').1.isOk = true) :
    (execute (generate run p) w).1 = .ok (p.failuresOf w.tree failures) ∧
      (execute (generate run p) w).2.tree = (execute (emitLatest p.output p.latest) w').2.tree := by
  obtain ⟨w₁, hlike, hrun⟩ := execute_generate run hp hreach
  obtain ⟨hcompiled, hleft⟩ := compileAll_settles p.output p.jobs (p.sources w.tree) hlike
  have hleft := (hleft failures hsettled).trans hafter
  rw [hsettled] at hcompiled
  rcases hall : execute (compileAll p.output p.jobs (p.sources w.tree)) w₁ with ⟨r, w₂⟩
  rw [hall] at hcompiled hleft hrun
  obtain rfl : r = .ok failures := hcompiled
  obtain ⟨hsame, hstays⟩ :=
    onTree_settleLatest p (failedVersions (p.failuresOf w.tree failures)) w₂ w' hleft.tree
  obtain ⟨hok, htree⟩ := execute_settleLatest hasked hfailed halias
  obtain ⟨hend, hend'⟩ := execute_conclude p (p.failuresOf w.tree failures) w₂
  rw [hsame, hok] at hend
  rw [hstays, htree] at hend'
  rw [hrun]
  exact ⟨hend, hend'⟩

/-- Without downloads the trees that are there are dealt with. -/
theorem Dealt.local {missing : List VersionFailure} (hp : p.download = false)
    (hreach : p.Reaches w.tree) (h : Dealt (p.retrieve run) w p.versions sources missing w') :
    sources = p.sources w.tree ∧ w'.Alike w := by
  obtain ⟨j, hfound⟩ := execute_retrieveAll_local hreach default
  have hrun := h.execute_retrieveAll default []
  rw [retrieve_eq_localSource hp, List.append_nil, hfound] at hrun
  obtain ⟨hok, rfl⟩ := Prod.mk.inj hrun
  exact ⟨(congrArg Retrieved.sources (Except.ok.inj hok)).symm, (Workspace.Alike.journal w j).symm⟩

/-- Two such trees are there in a run without downloads, and their packages can be emitted one after
the other. -/
structure BarePair (p : GenerationPlan) (w : Workspace) (u v : String) (pu pv : Path) : Prop where
  jobs : p.jobs = 1
  download : p.download = false
  reaches : p.Reaches w.tree
  sources : p.sources w.tree = [⟨u, pu⟩, ⟨v, pv⟩]
  first : Bare w.tree pu
  emits_first : (execute (emitBare p.output u) w).1.isOk = true
  second : Bare (execute (emitBare p.output u) w).2.tree pv
  emits_second : (execute (emitBare p.output v) (execute (emitBare p.output u) w).2).1.isOk = true

namespace BarePair

variable {pu pv : Path}

theorem isApart_eq (h : BarePair p w u v pu pv) : isApart p.jobs (p.sources w.tree) = false := by
  rw [isApart, h.jobs]
  rfl

/-- The files of the packages stay below their places. -/
theorem contained (h : BarePair p w u v pu pv) : p.Contained run w := by
  intro sources missing w' hdealt earlier source later hturn plan files hpackage
  obtain ⟨rfl, hlike⟩ := hdealt.local h.download h.reaches
  rw [h.isApart_eq] at hpackage
  rw [h.sources] at hturn
  have hfirst : Bare w'.tree pu := hlike.tree ▸ h.first
  obtain ⟨hsecond, -, -⟩ := compiled_pair hlike hfirst h.emits_first h.second h.emits_second
  rw [package_bare_pair hfirst hsecond hturn] at hpackage
  obtain ⟨-, rfl⟩ := Prod.mk.inj (Except.ok.inj hpackage)
  exact contained_bareFilesOf source.version

/-- Both packages stand at their places in the end if these are apart. -/
theorem holds {missing : List VersionFailure} (h : BarePair p w u v pu pv) (hlike : w'.Alike w)
    (hleaves : Leaves p (p.sources w.tree) missing [] w' t) (hversions : p.versions = [u, v])
    (hapart : Incomparable (placeOf p.output u).trail (placeOf p.output v).trail) :
    ∀ version ∈ [u, v], Holds t (placeOf p.output version).trail (bareFilesOf version).entries := by
  have hfirst : Bare w'.tree pu := hlike.tree ▸ h.first
  obtain ⟨hsecond, -, -⟩ := compiled_pair hlike hfirst h.emits_first h.second h.emits_second
  intro version hversion
  obtain ⟨earlier, path, later, plan, files, hturn, hpackage, -, hholds⟩ :=
    hleaves.holds (v := version) (by simp [h.sources, hversions])
      (hversions ▸ hversion) List.not_mem_nil (by
      intro other hother hne
      rw [hversions] at hother
      rcases List.mem_pair.1 hversion with rfl | rfl <;>
        rcases List.mem_pair.1 hother with rfl | rfl
      · exact absurd rfl hne
      · exact hapart
      · exact hapart.symm
      · exact absurd rfl hne)
  have hsources := hturn.eq
  rw [h.sources] at hsources
  rw [h.isApart_eq, package_bare_pair hfirst hsecond hsources] at hpackage
  obtain ⟨-, rfl⟩ := Prod.mk.inj (Except.ok.inj hpackage)
  exact hholds

/-- A run generates both packages, and the alias if that can be emitted after them. -/
theorem execute_generate (h : BarePair p w u v pu pv) (hasked : p.latest ∈ p.versions)
    (hmissing : missingFailures w.tree p.schemas p.versions = [])
    (halias : (execute (emitLatest p.output p.latest)
      (execute (emitBare p.output v) (execute (emitBare p.output u) w).2).2).1.isOk = true) :
    (execute (generate run p) w).1 = .ok [] ∧ (execute (generate run p) w).2.tree =
      (execute (emitLatest p.output p.latest)
        (execute (emitBare p.output v) (execute (emitBare p.output u) w).2).2).2.tree := by
  obtain ⟨-, hsettled, hafter⟩ :=
    compiled_pair (.refl w) h.first h.emits_first h.second h.emits_second
  rw [← h.sources, ← h.isApart_eq] at hsettled hafter
  have hnone : p.failuresOf w.tree [] = [] := by
    rw [GenerationPlan.failuresOf, hmissing]
    exact List.mergeSort_nil
  have hend := execute_generate_of_settled run h.download h.reaches hsettled hafter hasked
    (by rw [hnone]; exact List.not_mem_nil) halias
  rwa [hnone] at hend

end BarePair

/-- A plan for two versions finds both trees if their directories are there. -/
theorem sources_barePlanFor (hu : t.isDirectory (bareDir u) = .ok true)
    (hv : t.isDirectory (bareDir v) = .ok true) :
    (barePlanFor u v).Reaches t ∧
      (barePlanFor u v).sources t = [⟨u, bareDir u⟩, ⟨v, bareDir v⟩] ∧
      missingFailures t (barePlanFor u v).schemas (barePlanFor u v).versions = [] := by
  have hlast : versionsWhere true t (.ofString "schemas") [v] = [v] := versionsWhere_cons hv
  have hboth : versionsWhere true t (.ofString "schemas") [u, v] = [u, v] :=
    (versionsWhere_cons hu).trans (congrArg (u :: ·) hlast)
  have hpresent : ∀ version ∈ [u, v], t.isDirectory (bareDir version) = .ok true :=
    List.forall_mem_cons.2 ⟨hu, List.forall_mem_singleton.2 hv⟩
  refine ⟨fun version hversion ↦ ⟨true, hpresent version hversion⟩, ?_,
    missingFailures_eq_nil hpresent⟩
  rw [GenerationPlan.sources, localSources, barePlanFor, hboth]
  rfl

/-- A plan for two versions that can be emitted deals with both. -/
theorem barePair_barePlanFor {v : String} (hu : Bare bareTrees (bareDir u))
    (hv : Bare bareTrees (bareDir v)) (h : Emittable u v) :
    BarePair (barePlanFor u v) (.ofTree bareTrees) u v (bareDir u) (bareDir v) := by
  obtain ⟨hfirst, hsecond, hboth, -⟩ := h
  obtain ⟨hreaches, hsources, -⟩ := sources_barePlanFor hu.directory hv.directory
  exact ⟨rfl, rfl, hreaches, hsources, hu, hfirst, hsecond, hboth⟩

/-- A run over two such trees generates both packages and the alias if they can be emitted one after
the other. -/
theorem generate_barePlanFor {v : String} (run : Runner) (hu : Bare bareTrees (bareDir u))
    (hv : Bare bareTrees (bareDir v)) (hasked : "1.7.0" ∈ [u, v]) (h : Emittable u v) :
    (execute (generate run (barePlanFor u v)) (.ofTree bareTrees)).1 = .ok [] ∧
      (execute (generate run (barePlanFor u v)) (.ofTree bareTrees)).2.tree =
        (execute (emitLatest (.ofString "out") "1.7.0") (emittedBare [u, v])).2.tree := by
  have hmissing := (sources_barePlanFor hu.directory hv.directory).2.2
  exact (barePair_barePlanFor hu hv h).execute_generate hasked hmissing h.2.2.2

/-- A directory of two schema trees: that of 1.6.0 has a list for its dictionary, and that of 1.7.0
has no entities. -/
def brokenTrees : FileTree := .dir [("schemas", .dir [
  ("v1.6.0", .dir [("version.json", .file "\x7b\"version\": \"1.6.0\"\x7d"),
    ("categories.json", .file "\x7b\x7d"), ("dictionary.json", .file "[]")]),
  ("v1.7.0", bareTree)])]

/-- The broken tree is there, and the other one has no entities. -/
theorem bare_brokenTrees : brokenTrees.isDirectory (bareDir "1.6.0") = .ok true ∧
    Bare brokenTrees (bareDir "1.7.0") := by
  decide +kernel

/-- The package of the second version can be emitted, and then the alias. -/
theorem emittable_brokenTrees :
    (execute (emitBare (.ofString "out") "1.7.0") (.ofTree brokenTrees)).1.isOk = true ∧
      (execute (emitLatest (.ofString "out") "1.7.0")
        (execute (emitBare (.ofString "out") "1.7.0") (.ofTree brokenTrees)).2).1.isOk = true := by
  simp only [emitBare, execute_emit_bareSchemaOf]
  decide +kernel

/-- The broken tree has no package, for a reason of its own. -/
theorem package_brokenTrees : ∃ e, e.isOfVersion = true ∧
    Source.package brokenTrees ⟨"1.6.0", bareDir "1.6.0"⟩ = .error e := ⟨_, rfl, rfl⟩

/-- The first tree is listed at its turn, and then the second is compiled. -/
theorem settled_brokenTrees : ∃ e : CompileError,
    settled (outcomesFrom false (.ofString "out") (.ofTree brokenTrees)
        [⟨"1.6.0", bareDir "1.6.0"⟩, ⟨"1.7.0", bareDir "1.7.0"⟩]) = .ok [⟨"1.6.0", e.message⟩] ∧
      (afterVersions false (.ofString "out") (.ofTree brokenTrees)
        [⟨"1.6.0", bareDir "1.6.0"⟩, ⟨"1.7.0", bareDir "1.7.0"⟩]).Alike
          (execute (emitBare (.ofString "out") "1.7.0") (.ofTree brokenTrees)).2 := by
  obtain ⟨e, hversion, he⟩ := package_brokenTrees
  obtain ⟨j, hfirst⟩ := execute_compile_error (w := .ofTree brokenTrees) he (.ofString "out")
  have hlike :
      (afterVersion false (.ofString "out") (.ofTree brokenTrees) ⟨"1.6.0", bareDir "1.6.0"⟩).Alike
      (.ofTree brokenTrees) := afterVersion_of_package_error he
  have hbare : Bare (afterVersion false (.ofString "out") (.ofTree brokenTrees)
      ⟨"1.6.0", bareDir "1.6.0"⟩).tree (bareDir "1.7.0") := hlike.tree ▸ bare_brokenTrees.2
  obtain ⟨hok, hafter⟩ := hbare.compile (.ofString "out") "1.7.0" hlike
  refine ⟨e, ?_, hafter⟩
  have hrest : settled (outcomesFrom false (.ofString "out") (afterVersion false (.ofString "out")
      (.ofTree brokenTrees) ⟨"1.6.0", bareDir "1.6.0"⟩) [⟨"1.7.0", bareDir "1.7.0"⟩]) = .ok [] :=
    settled_cons_ok (hok.trans emittable_brokenTrees.1) rfl
  rw [outcomesFrom, hfirst]
  exact settled_cons_error hversion hrest

/-- A version with a broken tree is listed and nothing else, the version after it is generated, and
the run leaves the files of a run in which the broken one is not asked for. -/
theorem generate_settles_brokenTrees : ∃ failures,
    (execute (generate (.unavailable "") (barePlanFor "1.6.0" "1.7.0")) (.ofTree brokenTrees)).1 =
      .ok failures ∧
    (∃ e, failures = [⟨"1.6.0", e⟩]) ∧
    Holds (execute (generate (.unavailable "") (barePlanFor "1.6.0" "1.7.0"))
      (.ofTree brokenTrees)).2.tree
      ["out", "v1_7"] (bareFilesOf "1.7.0").entries ∧
    (execute (generate (.unavailable "") ((barePlanFor "1.6.0" "1.7.0").keeping (· == "1.7.0")))
      (.ofTree brokenTrees)).1 = .ok [] ∧
    (execute (generate (.unavailable "") ((barePlanFor "1.6.0" "1.7.0").keeping (· == "1.7.0")))
        (.ofTree brokenTrees)).2.tree =
      (execute (generate (.unavailable "") (barePlanFor "1.6.0" "1.7.0"))
        (.ofTree brokenTrees)).2.tree := by
  obtain ⟨hbroken, hbare⟩ := bare_brokenTrees
  obtain ⟨hreach, hsources, hmissing⟩ := sources_barePlanFor hbroken hbare.directory
  obtain ⟨e, hsettled, hafter⟩ := settled_brokenTrees
  have hfailures : (barePlanFor "1.6.0" "1.7.0").failuresOf brokenTrees [⟨"1.6.0", e.message⟩] =
      [⟨"1.6.0", e.message⟩] := by
    rw [GenerationPlan.failuresOf, hmissing]
    exact List.mergeSort_singleton _
  rw [← hsources] at hsettled hafter
  obtain ⟨hrun, htree⟩ :=
    execute_generate_of_settled (.unavailable "") (p := barePlanFor "1.6.0" "1.7.0")
    (w := .ofTree brokenTrees) rfl hreach hsettled hafter (by decide)
    (by rw [Workspace.ofTree, hfailures];
        simp [failedVersions, barePlanFor]) emittable_brokenTrees.2
  rw [Workspace.ofTree, hfailures, ← Workspace.ofTree] at hrun
  obtain ⟨-, -, -, hgenerated⟩ := generate_settles (.unavailable "") (barePlanFor "1.6.0" "1.7.0")
    (.ofTree brokenTrees) rfl
  have hdrop : ∀ source w', (barePlanFor "1.6.0" "1.7.0").Turn (.ofTree brokenTrees) source w' →
      (source.version == "1.7.0") = false → ∃ e, source.package w'.tree = .error e := by
    rintro source _ ⟨earlier, later, hturn, rfl⟩ hversion
    rw [Workspace.ofTree, hsources] at hturn
    rcases eq_of_pair_eq_append hturn with ⟨rfl, rfl⟩ | ⟨rfl, rfl⟩
    · obtain ⟨x, -, hx⟩ := package_brokenTrees
      exact ⟨x, hx⟩
    · cases hversion
  obtain ⟨hkept, hsame⟩ := (hgenerated _ hrun).2 (· == "1.7.0") hdrop
  refine ⟨_, hrun, ⟨_, rfl⟩, ?_, hkept, hsame⟩
  have hplace : (placeOf (.ofString "out") "1.7.0").trail = ["out", "v1_7"] := by decide +kernel
  rw [htree, ← hplace]
  exact (holds_emitBare (isRead_ofString "out")
    (not_leadsThrough_of_plain (by decide +kernel) "1.7.0")
    emittable_brokenTrees.1).aliasing (ends_emitLatest (.ofString "out") "1.7.0" _ _ rfl)

end EventSchema
