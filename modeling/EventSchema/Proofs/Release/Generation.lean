import EventSchema.Proofs.Release.FailureOrder
import EventSchema.Proofs.Release.Retrieval
import EventSchema.Proofs.Release.Turns

/-!
# Generating packages

A run without downloads compiles the schema trees that are there, each at its turn
(`GenerationPlan.Turn`). What comes of it is said by `generate_settles`: for which trees it is given
up instead of listing the failures, what is listed otherwise, and that the versions without a
package might as well not have been asked for.
-/

namespace EventSchema

open Package

variable {run : Runner} {p : GenerationPlan} {w : Workspace} {failures : List VersionFailure}

/-! ### Turns of a run -/

namespace GenerationPlan

/-- The schema trees of a plan that are there. -/
def sources (p : GenerationPlan) (tree : FileTree) : List Source :=
  localSources tree p.schemas p.versions

/-- The directories of all versions can be looked at. -/
def Reaches (p : GenerationPlan) (tree : FileTree) : Prop :=
  ∀ v ∈ p.versions, ∃ b, tree.isDirectory (versionDir p.schemas v) = .ok b

/-- In a run without downloads that starts from a workspace, a schema tree has its turn in another
one, which the versions before it leave. -/
def Turn (p : GenerationPlan) (w : Workspace) (source : Source) (w' : Workspace) : Prop :=
  ∃ earlier later, p.sources w.tree = earlier ++ source :: later ∧
    w' = afterVersions (isApart p.jobs (p.sources w.tree)) p.output w earlier

theorem mem_outcomesFrom_iff_turn {source : Source} {r : Except CompileError Compiled} :
    (source, r) ∈ outcomesFrom (isApart p.jobs (p.sources w.tree)) p.output w (p.sources w.tree) ↔
      ∃ w', p.Turn w source w' ∧ r = (execute (compile p.output source) w').1 := by
  rw [mem_outcomesFrom]
  constructor
  · rintro ⟨earlier, later, h, hr⟩
    exact ⟨_, ⟨earlier, later, h, rfl⟩, hr⟩
  · rintro ⟨_, ⟨earlier, later, h, rfl⟩, hr⟩
    exact ⟨earlier, later, h, hr⟩

end GenerationPlan

/-! ### The course of a run -/

/-- All failures of a run in the order of its versions. -/
def GenerationPlan.failuresOf (p : GenerationPlan) (tree : FileTree)
    (compiled : List VersionFailure) :
    List VersionFailure :=
  inVersionOrder p.versions (missingFailures tree p.schemas p.versions ++ compiled)

/-- The versions of failures. -/
def failedVersions (failures : List VersionFailure) : List String :=
  (failures.map (·.version)).eraseDups

/-- The end of a run, when it is known which versions failed. -/
def conclude (p : GenerationPlan) (failures : List VersionFailure) :
    Action GenerationError (List VersionFailure) := do
  settleLatest p (failedVersions failures)
  let generated := (p.versions.length : Int) - (failedVersions failures).length
  Action.report .info s!"Generated {generated} of {p.versions.length} schema version(s)"
  pure failures

theorem onTree_settleLatest (p : GenerationPlan) (failed : List String) :
    (settleLatest p failed).OnTree := by
  unfold settleLatest
  split
  · exact .report _ _
  split
  · exact .report _ _
  · exact (Action.OnTree.mapError (onTree_emitLatest _ _)).bind fun _ ↦ .pure _

/-- Once the alias is settled a run only reports. -/
theorem execute_conclude (p : GenerationPlan) (failures : List VersionFailure) (w : Workspace) :
    (execute (conclude p failures) w).1 =
        (execute (settleLatest p (failedVersions failures)) w).1.map (fun _ ↦ failures) ∧
      (execute (conclude p failures) w).2.tree =
        (execute (settleLatest p (failedVersions failures)) w).2.tree := by
  unfold conclude
  rw [execute_bind]
  rcases execute (settleLatest p (failedVersions failures)) w with ⟨e | u, w'⟩ <;> exact ⟨rfl, rfl⟩

theorem settleLatest_error {e : GenerationError} {failed : List String}
    (h : (execute (settleLatest p failed) w).1 = .error e) : ∃ f, e = .latest f := by
  unfold settleLatest at h
  split at h
  · cases h
  split at h
  · cases h
  rcases execute_bind_eq_error h with ⟨w', h⟩ | ⟨a, w', -, h⟩
  · obtain ⟨f, -, rfl⟩ := mapError_eq_error (congrArg Prod.fst h)
    exact ⟨f, rfl⟩
  · cases h

theorem retrieve_eq_localSource (hp : p.download = false) :
    p.retrieve run = localSource p.schemas := by
  funext v
  rw [GenerationPlan.retrieve, hp]
  rfl

/-- If the directories of all versions can be looked at, a run compiles the schema trees that are
there, and then comes to its end. -/
theorem execute_generate (run : Runner) (hp : p.download = false) (h : p.Reaches w.tree) :
    ∃ w₁ : Workspace, w₁.Alike w ∧
      execute (generate run p) w =
        match execute (compileAll p.output p.jobs (p.sources w.tree)) w₁ with
        | (.error e, w₂) => (.error (.compile e), w₂)
        | (.ok compiled, w₂) => execute (conclude p (p.failuresOf w.tree compiled)) w₂ := by
  obtain ⟨j, hfound⟩ := execute_retrieveAll_local h default
  refine ⟨{ w with journal := j }, (Workspace.Alike.journal w j).symm, ?_⟩
  have hmap : execute (Action.mapError GenerationError.retrieval
      (retrieveAll (p.retrieve run) default p.versions)) w =
        (.ok ⟨p.sources w.tree, missingFailures w.tree p.schemas p.versions⟩,
          { w with journal := j }) := by
    rw [retrieve_eq_localSource hp, Action.execute_mapError, hfound]
    rfl
  unfold generate
  rw [execute_bind_ok hmap, execute_bind, Action.execute_mapError]
  rcases execute (compileAll p.output p.jobs (p.sources w.tree)) { w with journal := j } with
    ⟨e | compiled, w₂⟩ <;> rfl

/-- If the directory of some version cannot be looked at, the run is given up. -/
theorem execute_generate_error (run : Runner) (hp : p.download = false) (h : ¬p.Reaches w.tree) :
    ∃ e, (execute (generate run p) w).1 = .error (.retrieval (.file e)) := by
  obtain ⟨e, he⟩ := execute_retrieveAll_local_error h default
  refine ⟨e, ?_⟩
  unfold generate
  rw [execute_bind, retrieve_eq_localSource hp, Action.execute_mapError]
  rcases hrun : execute (retrieveAll (localSource p.schemas) default p.versions) w with ⟨r, w₁⟩
  rw [hrun] at he
  obtain rfl : r = .error (.file e) := he
  rfl

/-- What comes of a run: it is given up before anything is compiled, or for a version that concerns
all, or it comes to its end with the failures of the outcomes. -/
theorem generate_cases (run : Runner) (hp : p.download = false) (w : Workspace) :
    (¬p.Reaches w.tree ∧ ∃ e, (execute (generate run p) w).1 = .error (.retrieval (.file e))) ∨
    (p.Reaches w.tree ∧ ∃ w₁ : Workspace, w₁.Alike w ∧
      ((∃ e, (execute (compileAll p.output p.jobs (p.sources w.tree)) w₁).1 = .error e ∧
          (execute (generate run p) w).1 = .error (.compile e)) ∨
        ∃ compiled w₂,
          execute (compileAll p.output p.jobs (p.sources w.tree)) w₁ = (.ok compiled, w₂) ∧
          execute (generate run p) w =
            execute (conclude p (p.failuresOf w.tree compiled)) w₂)) := by
  by_cases h : p.Reaches w.tree
  · obtain ⟨w₁, halike, hrun⟩ := execute_generate run hp h
    refine .inr ⟨h, w₁, halike, ?_⟩
    rcases hall : execute (compileAll p.output p.jobs (p.sources w.tree)) w₁ with ⟨e | compiled, w₂⟩
    · rw [hall] at hrun
      exact .inl ⟨e, rfl, congrArg Prod.fst hrun⟩
    · rw [hall] at hrun
      exact .inr ⟨compiled, w₂, rfl, hrun⟩
  · exact .inl ⟨h, execute_generate_error run hp h⟩

/-! ### What comes of a run -/

/-- Some outcome concerns all versions exactly if a tree escapes at its turn. -/
theorem settled_error_iff :
    (∃ e, settled (outcomesFrom (isApart p.jobs (p.sources w.tree)) p.output w (p.sources w.tree)) =
        .error e) ↔
      ∃ source w', p.Turn w source w' ∧ source.Escapes w'.tree := by
  constructor
  · rintro ⟨e, h⟩
    obtain ⟨source, hmem, hversion⟩ := settled_error h
    obtain ⟨w', hturn, he⟩ := GenerationPlan.mem_outcomesFrom_iff_turn.1 hmem
    exact ⟨source, w', hturn, (compile_escapes_iff p.output).1 ⟨e, he.symm, hversion⟩⟩
  · rintro ⟨source, w', hturn, hescapes⟩
    obtain ⟨e, he, hversion⟩ := (compile_escapes_iff p.output).2 hescapes
    -- were the outcomes settled, no failure would concern all versions
    rcases h :
      settled (outcomesFrom (isApart p.jobs (p.sources w.tree)) p.output w (p.sources w.tree))
      with x | failures
    · exact ⟨x, rfl⟩
    · have htrue := (settled_ok h).1 source e
        (GenerationPlan.mem_outcomesFrom_iff_turn.2 ⟨w', hturn, he.symm⟩)
      rw [hversion] at htrue
      cases htrue

/-- A run is given up for a version exactly if the directories of all versions can be looked at and
a tree escapes at its turn. -/
theorem generate_compile_error_iff (run : Runner) (hp : p.download = false) :
    (∃ e, (execute (generate run p) w).1 = .error (.compile e)) ↔
      p.Reaches w.tree ∧ ∃ source w', p.Turn w source w' ∧ source.Escapes w'.tree := by
  rw [← settled_error_iff]
  rcases generate_cases run hp w with ⟨hreach, x, hx⟩ | ⟨hreach, w₁, halike, h⟩
  · refine ⟨fun ⟨e, he⟩ ↦ ?_, fun h ↦ absurd h.1 hreach⟩
    rw [hx] at he
    cases he
  have hsettles := (compileAll_settles p.output p.jobs (p.sources w.tree) halike).1
  rcases h with ⟨e, hall, hrun⟩ | ⟨compiled, w₂, hall, hrun⟩
  · exact ⟨fun _ ↦ ⟨hreach, e, hsettles.symm.trans hall⟩, fun _ ↦ ⟨e, hrun⟩⟩
  · have hok := hsettles.symm.trans (congrArg Prod.fst hall)
    constructor
    · rintro ⟨e, he⟩
      rw [hrun, (execute_conclude _ _ _).1] at he
      rcases hlatest :
        (execute (settleLatest p (failedVersions (p.failuresOf w.tree compiled))) w₂).1 with x | u
      · obtain ⟨f, rfl⟩ := settleLatest_error hlatest
        rw [hlatest] at he
        cases he
      · rw [hlatest] at he
        cases he
    · rintro ⟨-, e, he⟩
      rw [hok] at he
      cases he

/-- Otherwise only the file system gives a run up. -/
theorem generate_error {e : GenerationError} (hp : p.download = false)
    (h : (execute (generate run p) w).1 = .error e) :
    (∃ f, e = .retrieval (.file f)) ∨ (∃ x, e = .compile x) ∨ ∃ f, e = .latest f := by
  rcases generate_cases run hp w with ⟨-, f, hf⟩ | ⟨-, w₁, -, ⟨x, -, hx⟩ | ⟨compiled, w₂, -, hrun⟩⟩
  · exact .inl ⟨f, Except.error.inj (h.symm.trans hf)⟩
  · exact .inr (.inl ⟨x, Except.error.inj (h.symm.trans hx)⟩)
  · rw [hrun, (execute_conclude _ _ _).1] at h
    rcases hlatest : (execute (settleLatest p (failedVersions (p.failuresOf w.tree compiled))) w₂).1
      with x | u
    · rw [hlatest] at h
      obtain rfl := Except.error.inj h
      exact .inr (.inr (settleLatest_error hlatest))
    · rw [hlatest] at h
      cases h

/-- A run that comes to its end has its failures from the outcomes. -/
theorem generate_ok (hp : p.download = false) (h : (execute (generate run p) w).1 = .ok failures) :
    p.Reaches w.tree ∧ ∃ (w₁ : Workspace) (compiled : List VersionFailure) (w₂ : Workspace),
      w₁.Alike w ∧ execute (compileAll p.output p.jobs (p.sources w.tree)) w₁ = (.ok compiled, w₂) ∧
      failures = p.failuresOf w.tree compiled ∧
      (execute (settleLatest p (failedVersions failures)) w₂).1 = .ok () ∧
      (execute (generate run p) w).2.tree =
        (execute (settleLatest p (failedVersions failures)) w₂).2.tree := by
  rcases generate_cases run hp w with
    ⟨-, f, hf⟩ | ⟨hreach, w₁, halike, ⟨x, -, hx⟩ | ⟨compiled, w₂, hall, hrun⟩⟩
  · rw [hf] at h
    cases h
  · rw [hx] at h
    cases h
  · have hconclude := execute_conclude p (p.failuresOf w.tree compiled) w₂
    rw [hrun, hconclude.1] at h
    rcases hlatest : (execute (settleLatest p (failedVersions (p.failuresOf w.tree compiled))) w₂).1
      with x | u
    · rw [hlatest] at h
      cases h
    · rw [hlatest] at h
      obtain rfl := Except.ok.inj h
      rw [hrun]
      exact ⟨hreach, w₁, compiled, w₂, halike, hall, rfl, hlatest, hconclude.2⟩

/-- The failures that are listed are those of the versions without a tree and of the trees that
failed at their turns. -/
theorem mem_failures (hp : p.download = false) (h : (execute (generate run p) w).1 = .ok failures)
    (f : VersionFailure) :
    f ∈ failures ↔
      (∃ v ∈ p.versions, w.tree.isDirectory (versionDir p.schemas v) = .ok false ∧
        f = ⟨v, (RetrievalError.notPresent v (versionDir p.schemas v)).message⟩) ∨
      ∃ source w' e, p.Turn w source w' ∧ (execute (compile p.output source) w').1 = .error e ∧
        f = ⟨source.version, e.message⟩ := by
  obtain ⟨-, w₁, compiled, w₂, halike, hall, rfl, -, -⟩ := generate_ok hp h
  have hsettled : settled (outcomesFrom (isApart p.jobs (p.sources w.tree)) p.output w
      (p.sources w.tree)) = .ok compiled :=
    (compileAll_settles p.output p.jobs _ halike).1.symm.trans
      (congrArg Prod.fst hall)
  rw [GenerationPlan.failuresOf, inVersionOrder, List.mem_mergeSort, List.mem_append,
    mem_missingFailures, (settled_ok hsettled).2]
  refine or_congr_right ?_
  constructor
  · rintro ⟨source, e, hmem, rfl⟩
    obtain ⟨w', hturn, he⟩ := GenerationPlan.mem_outcomesFrom_iff_turn.1 hmem
    exact ⟨source, w', e, hturn, he.symm, rfl⟩
  · rintro ⟨source, w', e, hturn, he, rfl⟩
    exact ⟨source, e, GenerationPlan.mem_outcomesFrom_iff_turn.2 ⟨w', hturn, he.symm⟩, rfl⟩

/-! ### Versions that are not asked for -/

/-- A plan without some of its versions. -/
def GenerationPlan.keeping (p : GenerationPlan) (keep : String → Bool) : GenerationPlan :=
  { p with versions := p.versions.filter keep }

theorem sources_keeping (p : GenerationPlan) (keep : String → Bool) (tree : FileTree) :
    (p.keeping keep).sources tree = (p.sources tree).filter fun s ↦ keep s.version :=
  localSources_filter keep

theorem mem_failedVersions {v : String} : v ∈ failedVersions failures ↔
    ∃ f ∈ failures, f.version = v := by
  rw [failedVersions, List.mem_eraseDups, List.mem_map]

/-- The alias is settled alike if its version is asked for, and also if not but it failed. -/
theorem settleLatest_keeping (keep : String → Bool) {w' : Workspace} (htree : w.tree = w'.tree)
    (h : p.latest ∈ p.versions → keep p.latest = false → p.latest ∈ failedVersions failures) :
    (execute (settleLatest p (failedVersions failures)) w).1 =
        (execute (settleLatest (p.keeping keep)
          (failedVersions (failures.filter fun f ↦ keep f.version))) w').1 ∧
      (execute (settleLatest p (failedVersions failures)) w).2.tree =
        (execute (settleLatest (p.keeping keep)
          (failedVersions (failures.filter fun f ↦ keep f.version))) w').2.tree := by
  have hversions : (p.keeping keep).versions = p.versions.filter keep := rfl
  have hlatest : (p.keeping keep).latest = p.latest := rfl
  cases hkeep : keep p.latest with
  | true =>
    have hsame :
        settleLatest (p.keeping keep) (failedVersions (failures.filter fun f ↦ keep f.version)) =
        settleLatest p (failedVersions failures) := by
      have hasked : (p.versions.filter keep).contains p.latest = p.versions.contains p.latest := by
        rw [Bool.eq_iff_iff, List.contains_iff_mem, List.contains_iff_mem, List.mem_filter]
        exact and_iff_left hkeep
      have hfailed : (failedVersions (failures.filter fun f ↦ keep f.version)).contains p.latest =
          (failedVersions failures).contains p.latest := by
        rw [Bool.eq_iff_iff, List.contains_iff_mem, List.contains_iff_mem, mem_failedVersions,
          mem_failedVersions]
        refine exists_congr fun f ↦ and_congr_left fun hf ↦ List.mem_filter.trans (and_iff_left ?_)
        exact hf ▸ hkeep
      rw [settleLatest, settleLatest, hversions, hlatest, hasked, hfailed]
      rfl
    rw [hsame]
    exact onTree_settleLatest p _ w w' htree
  | false =>
    -- the version of the alias failed or was not asked for, so neither run writes the alias
    have hleft : (p.versions.filter keep).contains p.latest = false := by
      rw [← Bool.not_eq_true, List.contains_iff_mem, List.mem_filter]
      exact fun hmem ↦ ne_true_of_eq_false hkeep hmem.2
    have hquiet : (execute (settleLatest p (failedVersions failures)) w).1 = .ok () ∧
        (execute (settleLatest p (failedVersions failures)) w).2.tree = w.tree := by
      unfold settleLatest
      split
      · exact ⟨rfl, rfl⟩
      split
      · exact ⟨rfl, rfl⟩
      · rename_i hasked hfailed
        refine absurd (h ?_ hkeep) fun hmem ↦ hfailed (List.contains_iff_mem.2 hmem)
        simpa using hasked
    rw [hquiet.1, hquiet.2, settleLatest, hversions, hlatest, hleft]
    exact ⟨rfl, htree⟩

/-- A schema tree that is there has its turn, and only such a tree has. -/
theorem exists_turn_iff {source : Source} :
    (∃ w', p.Turn w source w') ↔
      ∃ v ∈ p.versions, w.tree.isDirectory (versionDir p.schemas v) = .ok true ∧
        source = ⟨v, versionDir p.schemas v⟩ := by
  rw [← mem_localSources]
  constructor
  · rintro ⟨w', earlier, later, h, -⟩
    exact (congrArg (source ∈ ·) h).mpr (List.mem_append_right _ List.mem_cons_self)
  · intro hmem
    obtain ⟨earlier, later, h⟩ := List.append_of_mem hmem
    exact ⟨_, earlier, later, h, rfl⟩

/-- Failures are about versions that were asked for. -/
theorem version_mem_of_failure (hp : p.download = false)
    (h : (execute (generate run p) w).1 = .ok failures) {f : VersionFailure} (hf : f ∈ failures) :
    f.version ∈ p.versions := by
  rcases (mem_failures hp h f).1 hf with ⟨v, hv, -, rfl⟩ | ⟨source, w', e, hturn, -, rfl⟩
  · exact hv
  · obtain ⟨v, hv, -, rfl⟩ := exists_turn_iff.1 ⟨w', hturn⟩
    exact hv

/-- A version without a tree, or without a package when it is its turn, is listed. -/
theorem mem_failedVersions_of_no_package (hp : p.download = false)
    (h : (execute (generate run p) w).1 = .ok failures) {v : String} (hv : v ∈ p.versions)
    (hdrop : ∀ source w', p.Turn w source w' → source.version = v →
      ∃ e, source.package w'.tree = .error e) :
    v ∈ failedVersions failures := by
  obtain ⟨b, hb⟩ := (generate_ok hp h).1 v hv
  have hmem := mem_failures hp h
  rw [mem_failedVersions]
  cases b with
  | false => exact ⟨_, (hmem _).2 (.inl ⟨v, hv, hb, rfl⟩), rfl⟩
  | true =>
    obtain ⟨w', hturn⟩ := exists_turn_iff.2 ⟨v, hv, hb, rfl⟩
    obtain ⟨e, he⟩ := hdrop _ w' hturn rfl
    obtain ⟨j, hrun⟩ := execute_compile_error he p.output
    exact ⟨_, (hmem _).2 (.inr ⟨_, w', e, hturn, congrArg Prod.fst hrun, rfl⟩), rfl⟩

/-- A run that comes to its end leaves the same files, and lists the same failures of the other
versions, if versions are not asked for that have no tree or no package. -/
theorem generate_keeping (hp : p.download = false)
    (h : (execute (generate run p) w).1 = .ok failures) {keep : String → Bool}
    (hdrop : ∀ source w', p.Turn w source w' → keep source.version = false →
      ∃ e, source.package w'.tree = .error e) :
    (execute (generate run (p.keeping keep)) w).1 = .ok (failures.filter fun f ↦ keep f.version) ∧
      (execute (generate run (p.keeping keep)) w).2.tree = (execute (generate run p) w).2.tree := by
  obtain ⟨hreach, w₁, compiled, w₂, halike, hall, hfailures, hlatest, htree⟩ := generate_ok hp h
  rcases generate_cases run (p := p.keeping keep) hp w with ⟨hnot, -⟩ | ⟨-, w₁', halike', hrun⟩
  · exact absurd (fun v hv ↦ hreach v (List.mem_filter.1 hv).1) hnot
  rw [sources_keeping] at hrun
  have hall' := compileAll_filter halike halike'
    (fun earlier source later hsources ↦ hdrop source _ ⟨earlier, later, hsources, rfl⟩)
    (congrArg Prod.fst hall)
  rcases hrun with ⟨e, he, -⟩ | ⟨compiled', w₂', hcompiled, hrun⟩
  · exact nomatch he.symm.trans hall'.1
  obtain rfl : compiled' = compiled.filter fun f ↦ keep f.version :=
    Except.ok.inj ((congrArg Prod.fst hcompiled).symm.trans hall'.1)
  have htree' : w₂.tree = w₂'.tree :=
    (congrArg (·.2.tree) hall).symm.trans (hall'.2.symm.trans (congrArg (·.2.tree) hcompiled))
  have hkept : (p.keeping keep).failuresOf w.tree (compiled.filter fun f ↦ keep f.version) =
      failures.filter fun f ↦ keep f.version := by
    rw [hfailures, GenerationPlan.failuresOf, GenerationPlan.failuresOf, ← inVersionOrder_filter,
      List.filter_append, ← missingFailures_filter]
    · rfl
    · exact fun f hf ↦ version_mem_of_failure hp h (hfailures ▸ List.mem_mergeSort.2 hf)
  have hsettle := settleLatest_keeping keep htree' fun hasked hkeep ↦
    mem_failedVersions_of_no_package hp h hasked fun source w' hturn hversion ↦
      hdrop source w' hturn (hversion ▸ hkeep)
  have hconclude := execute_conclude (p.keeping keep) (failures.filter fun f ↦ keep f.version) w₂'
  rw [← hsettle.1, ← hsettle.2, hlatest, ← htree] at hconclude
  rw [hrun, hkept]
  exact hconclude

/-- What comes of a run without downloads. It is given up for a version exactly if a tree escapes at
its turn, and then a value without members stands in that tree where they are asked for, or an event
class has too large an identifier. Otherwise only the file system gives it up. When it comes to its
end it lists the versions that have no tree and those that failed, and the others are generated as
if the versions without a package had not been asked for. -/
theorem generate_settles (run : Runner) (p : GenerationPlan) (w : Workspace)
    (hp : p.download = false) :
    ((∃ e, (execute (generate run p) w).1 = .error (.compile e)) ↔
      p.Reaches w.tree ∧ ∃ source w', p.Turn w source w' ∧ source.Escapes w'.tree) ∧
    (∀ (source : Source) (tree : FileTree), source.Escapes tree →
      Catalog.LacksMembers tree source.path ∨ ∃ uid, Catalog.UidTooLarge tree source.path uid) ∧
    (∀ e, (execute (generate run p) w).1 = .error e →
      (∃ f, e = .retrieval (.file f)) ∨ (∃ x, e = .compile x) ∨ ∃ f, e = .latest f) ∧
    ∀ failures, (execute (generate run p) w).1 = .ok failures →
      (∀ f, f ∈ failures ↔
        (∃ v ∈ p.versions, w.tree.isDirectory (versionDir p.schemas v) = .ok false ∧
          f = ⟨v, (RetrievalError.notPresent v (versionDir p.schemas v)).message⟩) ∨
        ∃ source w' e, p.Turn w source w' ∧ (execute (compile p.output source) w').1 = .error e ∧
          f = ⟨source.version, e.message⟩) ∧
      ∀ keep : String → Bool,
        (∀ source w', p.Turn w source w' → keep source.version = false →
          ∃ e, source.package w'.tree = .error e) →
        (execute (generate run (p.keeping keep)) w).1 =
          .ok (failures.filter fun f ↦ keep f.version) ∧
          (execute (generate run (p.keeping keep)) w).2.tree =
            (execute (generate run p) w).2.tree :=
  ⟨generate_compile_error_iff run hp, fun _ _ h ↦ h.cause, fun _ h ↦ generate_error hp h, fun _ h ↦
    ⟨mem_failures hp h, fun _ hdrop ↦ generate_keeping hp h hdrop⟩⟩

/-! ### Runs over malformed trees -/

/-- A directory of schema trees: in that of 1.6.0 an attribute of the dictionary is a number, and
that of 1.7.0 is empty. -/
def malformedTrees : FileTree := .dir [("schemas", .dir [
  ("v1.6.0", .dir [
    ("version.json", .file "\x7b\"version\": \"1.6.0\"\x7d"),
    ("categories.json", .file "\x7b\x7d"),
    ("dictionary.json", .file "\x7b\"attributes\": \x7b\"a_id\": 1\x7d\x7d")]),
  ("v1.7.0", .dir [])])]

/-- A plan for versions of these trees. -/
def malformedPlan (versions : List String) : GenerationPlan where
  versions := versions
  schemas := ⟨"", ["schemas"]⟩
  output := ⟨"", ["out"]⟩
  latest := "1.8.0"
  jobs := 1
  download := false

theorem versionDir_malformedPlan :
    versionDir ⟨"", ["schemas"]⟩ "1.6.0" = ⟨"", ["schemas", "v1.6.0"]⟩ ∧
      versionDir ⟨"", ["schemas"]⟩ "1.7.0" = ⟨"", ["schemas", "v1.7.0"]⟩ := ⟨rfl, rfl⟩

theorem isDirectory_malformedTrees :
    malformedTrees.isDirectory (versionDir ⟨"", ["schemas"]⟩ "1.6.0") = .ok true ∧
      malformedTrees.isDirectory (versionDir ⟨"", ["schemas"]⟩ "1.7.0") = .ok true := by
  rw [versionDir_malformedPlan.1, versionDir_malformedPlan.2]
  exact ⟨rfl, rfl⟩

theorem sources_malformedPlan :
    (malformedPlan ["1.6.0", "1.7.0"]).sources malformedTrees =
      [⟨"1.6.0", ⟨"", ["schemas", "v1.6.0"]⟩⟩, ⟨"1.7.0", ⟨"", ["schemas", "v1.7.0"]⟩⟩] := by
  have hboth : versionsWhere true malformedTrees ⟨"", ["schemas"]⟩ ["1.6.0", "1.7.0"] =
      ["1.6.0", "1.7.0"] :=
    (versionsWhere_cons isDirectory_malformedTrees.1).trans
      (congrArg ("1.6.0" :: ·) (versionsWhere_cons isDirectory_malformedTrees.2))
  simp only [GenerationPlan.sources, localSources, malformedPlan, hboth, List.map,
    versionDir_malformedPlan]

theorem read_malformedTrees :
    (Catalog.read malformedTrees ⟨"", ["schemas", "v1.6.0"]⟩).outcome.1 =
      .error (.shape (.membersExpected (.int 1) "get")) := by
  have henums : Catalog.readSharedEnums [("a_id", .int 1)] =
      .error (.shape (.membersExpected (.int 1) "get")) := by
    have hid : "a_id".endsWith "_id" = true := by decide +kernel
    simp only [Catalog.readSharedEnums, List.mergeSort_singleton, Catalog.readSharedEnumsFrom,
      hid, if_true]
    rfl
  obtain ⟨version, hversion⟩ : ∃ version,
      Catalog.readVersion malformedTrees ⟨"", ["schemas", "v1.6.0"]⟩ = .ok version := ⟨_, rfl⟩
  have hcategories : Catalog.readObject malformedTrees
    (Path.child ⟨"", ["schemas", "v1.6.0"]⟩ "categories.json") = .ok [] := rfl
  have hdictionary : Catalog.readObject malformedTrees
    (Path.child ⟨"", ["schemas", "v1.6.0"]⟩ "dictionary.json") =
      .ok [("attributes", .obj [("a_id", .int 1)])] := rfl
  have hattributes : Catalog.partOf [("attributes", .obj [("a_id", .int 1)])] "attributes"
    "dictionary attributes" = .ok [("a_id", .int 1)] := rfl
  have hincludes : ∀ j, execute (Catalog.resolveIncludes malformedTrees ⟨"", ["schemas", "v1.6.0"]⟩
    [] [] []) j = (.ok ([], []), j) := fun _ ↦ rfl
  rw [Catalog.outcome_read rfl hversion hcategories hdictionary hattributes rfl rfl
    (Catalog.readItems_of_missing rfl) (Catalog.readItems_of_missing rfl)
    (Catalog.readItems_of_missing rfl) hincludes rfl, henums]
  rfl

/-- A number among the attributes of the dictionary gives the run up, and no version is
generated. -/
theorem generate_malformedTrees :
    (execute (generate (.unavailable "") (malformedPlan ["1.6.0", "1.7.0"]))
      (.ofTree malformedTrees)).1 =
      .error (.compile (.catalog (.shape (.membersExpected (.int 1) "get")))) := by
  have hreach : (malformedPlan ["1.6.0", "1.7.0"]).Reaches malformedTrees :=
    List.forall_mem_cons.2 ⟨⟨true, isDirectory_malformedTrees.1⟩,
      List.forall_mem_singleton.2 ⟨true, isDirectory_malformedTrees.2⟩⟩
  have hsettled :
      settled (outcomesFrom (isApart 1 ((malformedPlan ["1.6.0", "1.7.0"]).sources malformedTrees))
      ⟨"", ["out"]⟩ (.ofTree malformedTrees)
        ((malformedPlan ["1.6.0", "1.7.0"]).sources malformedTrees)) =
        .error (.catalog (.shape (.membersExpected (.int 1) "get"))) := by
    obtain ⟨j, hcompile⟩ :
      ∃ j, execute (compile ⟨"", ["out"]⟩ ⟨"1.6.0", ⟨"", ["schemas", "v1.6.0"]⟩⟩)
        (.ofTree malformedTrees) = (.error (.catalog (.shape (.membersExpected (.int 1) "get"))),
          { Workspace.ofTree malformedTrees with journal := j }) :=
      execute_compile_of_read_error read_malformedTrees
    rw [sources_malformedPlan, outcomesFrom, hcompile]
    rfl
  rcases generate_cases (.unavailable "") (p := malformedPlan ["1.6.0", "1.7.0"]) rfl
      (.ofTree malformedTrees) with ⟨hnot, -⟩ | ⟨-, w₁, halike, h⟩
  · exact absurd hreach hnot
  have hall := (compileAll_settles _ _ _ halike).1.trans hsettled
  rcases h with ⟨e, he, hrun⟩ | ⟨compiled, w₂, hok, -⟩
  · obtain rfl := Except.error.inj (hall.symm.trans he)
    exact hrun
  · cases hall.symm.trans (congrArg Prod.fst hok)

end EventSchema
