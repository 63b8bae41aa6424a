import EventSchema.Proofs.Release.Compilation
import EventSchema.Release.Generation

/-!
# Compiling several versions

Versions are compiled one after another, or side by side and each by itself. Either way there is a
workspace at the turn of each version, the one that the versions before it leave
(`afterVersions`), and the run comes to what the outcomes at these turns come to
(`compileAll_settles`): it is given up if one of them is a failure that concerns all versions, and
otherwise it lists the failures.

A version without a package leaves the workspace at the turns of the others as it is, so such
versions may be left out (`outcomesFrom_filter`).
-/

namespace EventSchema

open Package

variable {apart : Bool} {output : Path} {w w' : Workspace} {source : Source} {sources : List Source}
  {jobs : Int} {e : CompileError} {failures : List VersionFailure}

/-! ### Turns -/

/-- The workspace after a version was compiled. One that was compiled by itself leaves only what it
changed in the file system. -/
def afterVersion (apart : Bool) (output : Path) (w : Workspace) (source : Source) : Workspace :=
  let after := (execute (compile output source) w).2
  if apart then { w with tree := after.tree } else after

/-- The workspace after versions were compiled. -/
def afterVersions (apart : Bool) (output : Path) (w : Workspace)
    (sources : List Source) : Workspace :=
  sources.foldl (afterVersion apart output) w

/-- The outcomes of versions, each at its turn. -/
def outcomesFrom (apart : Bool) (output : Path) :
    Workspace → List Source → List (Source × Except CompileError Compiled)
  | _, [] => []
  | w, source :: rest =>
    (source, (execute (compile output source) w).1) ::
      outcomesFrom apart output (afterVersion apart output w source) rest

/-- What is reported before a version is compiled makes no difference. -/
theorem afterVersion_alike (h : w.Alike w') (source : Source) :
    (afterVersion apart output w source).Alike (afterVersion apart output w' source) := by
  have hafter := ((appends_compile output source).alike h).2
  unfold afterVersion
  cases apart with
  | true => exact ⟨hafter.tree, h.suffixes, h.commands⟩
  | false => exact hafter

theorem afterVersions_alike (h : w.Alike w') (sources : List Source) :
    (afterVersions apart output w sources).Alike (afterVersions apart output w' sources) := by
  induction sources generalizing w w' with
  | nil => exact h
  | cons source rest ih => exact ih (afterVersion_alike h source)

theorem outcomesFrom_alike (h : w.Alike w') (sources : List Source) :
    outcomesFrom apart output w sources = outcomesFrom apart output w' sources := by
  induction sources generalizing w w' with
  | nil => rfl
  | cons source rest ih =>
    rw [outcomesFrom, outcomesFrom, ((appends_compile output source).alike h).1,
      ih (afterVersion_alike h source)]

/-- A version without a package leaves the workspace as it was, up to what was reported. -/
theorem afterVersion_of_package_error (h : source.package w.tree = .error e) :
    (afterVersion apart output w source).Alike w := by
  obtain ⟨j, hrun⟩ := execute_compile_error h output
  unfold afterVersion
  rw [hrun]
  cases apart <;> exact ⟨rfl, rfl, rfl⟩

/-- An outcome is that of a version after those that are before it. -/
theorem mem_outcomesFrom {r : Except CompileError Compiled} :
    (source, r) ∈ outcomesFrom apart output w sources ↔
      ∃ earlier later, sources = earlier ++ source :: later ∧
        r = (execute (compile output source) (afterVersions apart output w earlier)).1 := by
  induction sources generalizing w with
  | nil =>
    refine ⟨nofun, ?_⟩
    rintro ⟨earlier, later, h, -⟩
    cases earlier <;> cases h
  | cons first rest ih =>
    rw [outcomesFrom, List.mem_cons, ih]
    constructor
    · rintro (h | ⟨earlier, later, rfl, h⟩)
      · cases h
        exact ⟨[], rest, rfl, rfl⟩
      · exact ⟨first :: earlier, later, rfl, h⟩
    · rintro ⟨earlier, later, h, hr⟩
      cases earlier with
      | nil =>
        cases h
        exact .inl (by rw [hr]; rfl)
      | cons x earlier =>
        cases h
        exact .inr ⟨earlier, later, rfl, hr⟩

/-- Up to one version may be compiled either way. -/
theorem outcomesFrom_of_length_le_one (h : sources.length ≤ 1) (apart apart' : Bool) :
    outcomesFrom apart output w sources = outcomesFrom apart' output w sources ∧
      (afterVersions apart output w sources).tree =
        (afterVersions apart' output w sources).tree := by
  match sources, h with
  | [], _ => exact ⟨rfl, rfl⟩
  | [source], _ => exact ⟨rfl, by cases apart <;> cases apart' <;> rfl⟩

/-! ### What outcomes come to -/

/-- What the outcome of a version comes to: a failure to be listed, or one that stops the run. -/
def settledVersion (source : Source) : Except CompileError Compiled →
    Except CompileError (List VersionFailure)
  | .ok _ => .ok []
  | .error e => if e.isOfVersion then .ok [⟨source.version, e.message⟩] else .error e

/-- What outcomes come to: the failures, or the first one that stops the run. -/
def settled : List (Source × Except CompileError Compiled) →
    Except CompileError (List VersionFailure)
  | [] => .ok []
  | (source, r) :: rest => do
    let failures ← settledVersion source r
    let others ← settled rest
    pure (failures ++ others)

variable {outcomes : List (Source × Except CompileError Compiled)}

/-- A run is stopped by an outcome that concerns all versions. -/
theorem settled_error (h : settled outcomes = .error e) :
    ∃ source, (source, .error e) ∈ outcomes ∧ e.isOfVersion = false := by
  induction outcomes with
  | nil => cases h
  | cons first rest ih =>
    obtain ⟨source, r⟩ := first
    rcases bind_eq_error h with hfirst | ⟨_, -, h⟩
    · cases r with
      | ok c => cases hfirst
      | error x =>
        rw [settledVersion] at hfirst
        split at hfirst
        · cases hfirst
        · obtain rfl := Except.error.inj hfirst
          exact ⟨source, List.mem_cons_self, Bool.eq_false_of_not_eq_true ‹_›⟩
    · rcases bind_eq_error h with hrest | ⟨_, -, h⟩
      · obtain ⟨source', hmem, he⟩ := ih hrest
        exact ⟨source', List.mem_cons_of_mem _ hmem, he⟩
      · cases h

theorem settledVersion_ok {r : Except CompileError Compiled}
    (h : settledVersion source r = .ok failures) :
    (∀ e, r = .error e → e.isOfVersion = true) ∧
      ∀ f, f ∈ failures ↔ ∃ e, r = .error e ∧ f = ⟨source.version, e.message⟩ := by
  cases r with
  | ok c =>
    obtain rfl := Except.ok.inj h
    exact ⟨nofun, fun f ↦ ⟨nofun, fun ⟨_, heq, _⟩ ↦ nomatch heq⟩⟩
  | error e =>
    rw [settledVersion] at h
    split at h
    case isTrue he =>
      obtain rfl := Except.ok.inj h
      refine ⟨fun x hx ↦ Except.error.inj hx ▸ he, fun f ↦ ?_⟩
      rw [List.mem_singleton]
      exact ⟨fun hf ↦ ⟨e, rfl, hf⟩, fun ⟨_, heq, hf⟩ ↦ Except.error.inj heq ▸ hf⟩
    case isFalse => cases h

/-- Otherwise no failed outcome concerns all versions, and the failures are those of these
outcomes. -/
theorem settled_ok (h : settled outcomes = .ok failures) :
    (∀ source e, (source, .error e) ∈ outcomes → e.isOfVersion = true) ∧
      ∀ f, f ∈ failures ↔
        ∃ source e, (source, .error e) ∈ outcomes ∧ f = ⟨source.version, e.message⟩ := by
  induction outcomes generalizing failures with
  | nil =>
    obtain rfl := Except.ok.inj h
    exact ⟨nofun, fun f ↦ ⟨nofun, fun ⟨_, _, hmem, _⟩ ↦ nomatch hmem⟩⟩
  | cons first rest ih =>
    obtain ⟨source, r⟩ := first
    obtain ⟨now, hnow, h⟩ := bind_eq_ok h
    obtain ⟨others, hothers, h⟩ := bind_eq_ok h
    obtain rfl := Except.ok.inj h
    obtain ⟨hfirst, hnow⟩ := settledVersion_ok hnow
    obtain ⟨hrest, hothers⟩ := ih hothers
    refine ⟨fun source' e hmem ↦ ?_, fun f ↦ ?_⟩
    · rcases List.mem_cons.1 hmem with heq | hmem
      · cases heq
        exact hfirst e rfl
      · exact hrest source' e hmem
    rw [List.mem_append, hnow, hothers]
    constructor
    · rintro (⟨e, rfl, hf⟩ | ⟨source', e, hmem, hf⟩)
      · exact ⟨source, e, List.mem_cons_self, hf⟩
      · exact ⟨source', e, List.mem_cons_of_mem _ hmem, hf⟩
    · rintro ⟨source', e, hmem, hf⟩
      rcases List.mem_cons.1 hmem with heq | hmem
      · cases heq
        exact .inl ⟨e, rfl, hf⟩
      · exact .inr ⟨source', e, hmem, hf⟩

/-! ### Runs -/

theorem execute_settleVersion (source : Source) (r : Except CompileError Compiled) (w : Workspace) :
    ∃ j,
    execute (settleVersion source r) w = (settledVersion source r, { w with journal := j }) := by
  cases r with
  | ok c => exact ⟨_, rfl⟩
  | error e =>
    by_cases he : e.isOfVersion = true
    · simp only [settleVersion, settledVersion, if_pos he]
      exact ⟨_, rfl⟩
    · simp only [settleVersion, settledVersion, if_neg he]
      exact ⟨_, rfl⟩

theorem execute_settleAll (outcomes : List (Source × Except CompileError Compiled))
    (w : Workspace) :
    ∃ j, execute (settleAll outcomes) w = (settled outcomes, { w with journal := j }) := by
  induction outcomes generalizing w with
  | nil => exact ⟨_, rfl⟩
  | cons first rest ih =>
    obtain ⟨source, r⟩ := first
    obtain ⟨j, hfirst⟩ := execute_settleVersion source r w
    rw [settleAll, settled]
    cases hnow : settledVersion source r with
    | error e =>
      rw [hnow] at hfirst
      exact ⟨j, execute_bind_error hfirst⟩
    | ok now =>
      rw [hnow] at hfirst
      obtain ⟨j', hrest⟩ := ih { w with journal := j }
      rw [execute_bind_ok hfirst, execute_bind, hrest]
      cases settled rest <;> exact ⟨j', rfl⟩

/-- Side by side, each version is compiled by itself at its turn. -/
theorem execute_compileApart (output : Path) (sources : List Source) (w : Workspace) :
    execute (compileApart output sources) w =
      (.ok (outcomesFrom true output w sources), afterVersions true output w sources) := by
  induction sources generalizing w with
  | nil => rfl
  | cons source rest ih =>
    have hfirst : execute (Action.attempt (Action.apart (compile output source)) :
          Action CompileError _) w =
        (.ok (execute (compile output source) w).1, afterVersion true output w source) := rfl
    rw [compileApart, execute_bind_ok hfirst, execute_bind_ok (ih _)]
    rfl

/-- One after another, a run goes on as long as no failure concerns all versions. -/
theorem compileInTurn_settles (output : Path) (sources : List Source) (h : w.Alike w') :
    (execute (compileInTurn output sources) w).1 = settled (outcomesFrom false output w' sources) ∧
      ∀ failures, settled (outcomesFrom false output w' sources) = .ok failures →
        (execute (compileInTurn output sources) w).2.Alike
          (afterVersions false output w' sources) := by
  induction sources generalizing w w' with
  | nil => exact ⟨rfl, fun _ _ ↦ h⟩
  | cons source rest ih =>
    have hcompile := (appends_compile output source).alike h
    obtain ⟨j, hfirst⟩ := execute_settleVersion source (execute (compile output source) w).1
      (execute (compile output source) w).2
    rw [compileInTurn, execute_bind_ok (Action.execute_attempt _ w), outcomesFrom, settled,
      ← hcompile.1]
    -- a failure that concerns all versions ends the run here
    cases hnow : settledVersion source (execute (compile output source) w).1 with
    | error e =>
      rw [hnow] at hfirst
      rw [execute_bind_error hfirst]
      exact ⟨rfl, nofun⟩
    | ok now =>
      rw [hnow] at hfirst
      have halike : { (execute (compile output source) w).2 with journal := j }.Alike
          (afterVersion false output w' source) :=
        ((Workspace.Alike.journal _ j).symm).trans hcompile.2
      rw [execute_bind_ok hfirst, execute_bind]
      cases hrest :
        settled (outcomesFrom false output (afterVersion false output w' source) rest) with
      | error e =>
        have hrun := (ih halike).1.trans hrest
        rcases hfail : execute (compileInTurn output rest)
          { (execute (compile output source) w).2 with journal := j } with ⟨r, w''⟩
        rw [hfail] at hrun
        obtain rfl : r = .error e := hrun
        exact ⟨rfl, nofun⟩
      | ok others =>
        have hrun := (ih halike).1.trans hrest
        have hafter := (ih halike).2 others hrest
        rcases hok : execute (compileInTurn output rest)
          { (execute (compile output source) w).2 with journal := j } with ⟨r, w''⟩
        rw [hok] at hrun hafter
        obtain rfl : r = .ok others := hrun
        exact ⟨rfl, fun _ _ ↦ hafter⟩

/-- Whether versions are compiled side by side. -/
def isApart (jobs : Int) (sources : List Source) : Bool := decide (1 < jobs ∧ 1 < sources.length)

/-- Whatever way versions are compiled, a run comes to what the outcomes at their turns come to. -/
theorem compileAll_settles (output : Path) (jobs : Int) (sources : List Source) (h : w.Alike w') :
    (execute (compileAll output jobs sources) w).1 =
        settled (outcomesFrom (isApart jobs sources) output w' sources) ∧
      ∀ failures, settled (outcomesFrom (isApart jobs sources) output w' sources) = .ok failures →
        (execute (compileAll output jobs sources) w).2.Alike
          (afterVersions (isApart jobs sources) output w' sources) := by
  by_cases hapart : 1 < jobs ∧ 1 < sources.length
  · rw [isApart, decide_eq_true hapart, compileAll, if_pos hapart,
      execute_bind_ok (execute_compileApart output sources w), ← outcomesFrom_alike h]
    obtain ⟨j, hrun⟩ := execute_settleAll (outcomesFrom true output w sources)
      (afterVersions true output w sources)
    rw [hrun]
    exact ⟨rfl,
      fun _ _ ↦ ((Workspace.Alike.journal _ j).symm).trans (afterVersions_alike h sources)⟩
  · rw [isApart, decide_eq_false hapart, compileAll, if_neg hapart]
    exact compileInTurn_settles output sources h

/-! ### Versions that may be left out -/

/-- Versions that have no package at their turns may be left out. -/
theorem outcomesFrom_filter (keep : Source → Bool)
    (h : ∀ earlier source later, sources = earlier ++ source :: later → keep source = false →
      ∃ e, source.package (afterVersions apart output w earlier).tree = .error e) :
    outcomesFrom apart output w (sources.filter keep) =
        (outcomesFrom apart output w sources).filter (fun o ↦ keep o.1) ∧
      (afterVersions apart output w (sources.filter keep)).Alike
        (afterVersions apart output w sources) := by
  induction sources generalizing w with
  | nil => exact ⟨rfl, .refl w⟩
  | cons source rest ih =>
    obtain ⟨houtcomes, hafter⟩ := ih (w := afterVersion apart output w source)
      fun earlier source' later hrest hkeep ↦
        h (source :: earlier) source' later (congrArg (source :: ·) hrest) hkeep
    cases hkeep : keep source with
    | true =>
      simp only [List.filter_cons, hkeep, if_true, outcomesFrom, houtcomes]
      exact ⟨trivial, hafter⟩
    | false =>
      -- this version leaves the workspace as it was, so the rest starts alike without it
      obtain ⟨e, he⟩ := h [] source rest rfl hkeep
      have halike : w.Alike (afterVersion apart output w source) :=
        (afterVersion_of_package_error he).symm
      simp only [List.filter_cons, hkeep, Bool.false_eq_true, if_false, outcomesFrom,
        outcomesFrom_alike halike, houtcomes]
      exact ⟨trivial, (afterVersions_alike halike _).trans hafter⟩

/-- What is left out is missing among the failures, and nothing else. -/
theorem settled_filter (keep : String → Bool) (h : settled outcomes = .ok failures) :
    settled (outcomes.filter fun o ↦ keep o.1.version) =
      .ok (failures.filter fun f ↦ keep f.version) := by
  induction outcomes generalizing failures with
  | nil =>
    obtain rfl := Except.ok.inj h
    rfl
  | cons first rest ih =>
    obtain ⟨source, r⟩ := first
    obtain ⟨now, hnow, h⟩ := bind_eq_ok h
    obtain ⟨others, hothers, h⟩ := bind_eq_ok h
    obtain rfl := Except.ok.inj h
    have hversion : ∀ f ∈ now, f.version = source.version := fun f hf ↦ by
      obtain ⟨e, -, rfl⟩ := ((settledVersion_ok hnow).2 f).1 hf
      rfl
    rw [List.filter_append]
    cases hkeep : keep source.version with
    | true =>
      have hall : (now.filter fun f ↦ keep f.version) = now :=
        List.filter_eq_self.2 fun f hf ↦ (hversion f hf).symm ▸ hkeep
      rw [List.filter_cons, if_pos hkeep, settled, hnow, ih hothers, hall]
      rfl
    | false =>
      have hnone : (now.filter fun f ↦ keep f.version) = [] :=
        List.filter_eq_nil_iff.2 fun f hf ↦ by rw [hversion f hf, hkeep]; exact Bool.false_ne_true
      rw [List.filter_cons, if_neg (ne_true_of_eq_false hkeep), ih hothers, hnone, List.nil_append]

/-- What is compiled side by side still is when versions are left out, unless up to one is left. -/
theorem isApart_filter (jobs : Int) (keep : Source → Bool) (sources : List Source) :
    isApart jobs (sources.filter keep) = isApart jobs sources ∨
    (sources.filter keep).length ≤ 1 := by
  rcases Nat.lt_or_ge 1 (sources.filter keep).length with hmany | hfew
  · have hall : 1 < sources.length := hmany.trans_le (List.length_filter_le _ _)
    simp only [isApart, hmany, hall, true_or]
  · exact .inr hfew

/-- A run that is not given up comes to the same without the versions that have no package at their
turns: the same files, and the failures of the others. -/
theorem compileAll_filter {keep : String → Bool} {w₁ w₂ : Workspace}
    (h₁ : w₁.Alike w) (h₂ : w₂.Alike w)
    (hdrop : ∀ earlier source later, sources = earlier ++ source :: later →
      keep source.version = false →
        ∃ e, source.package (afterVersions (isApart jobs sources) output w earlier).tree = .error e)
    (h : (execute (compileAll output jobs sources) w₁).1 = .ok failures) :
    (execute (compileAll output jobs (sources.filter fun s ↦ keep s.version)) w₂).1 =
        .ok (failures.filter fun f ↦ keep f.version) ∧
      (execute (compileAll output jobs (sources.filter fun s ↦ keep s.version)) w₂).2.tree =
        (execute (compileAll output jobs sources) w₁).2.tree := by
  have hsettled : settled (outcomesFrom (isApart jobs sources) output w sources) = .ok failures :=
    (compileAll_settles output jobs sources h₁).1.symm.trans h
  have hafter := (compileAll_settles output jobs sources h₁).2 failures hsettled
  obtain ⟨houtcomes, halike⟩ := outcomesFrom_filter (fun s ↦ keep s.version) hdrop
  have hsame : outcomesFrom (isApart jobs (sources.filter fun s ↦ keep s.version)) output w
        (sources.filter fun s ↦ keep s.version) =
      (outcomesFrom (isApart jobs sources) output w sources).filter (fun o ↦ keep o.1.version) ∧
      (afterVersions (isApart jobs (sources.filter fun s ↦ keep s.version)) output w
        (sources.filter fun s ↦ keep s.version)).tree =
      (afterVersions (isApart jobs sources) output w
        (sources.filter fun s ↦ keep s.version)).tree := by
    -- up to one version is compiled in turn although the others were compiled side by side
    rcases isApart_filter jobs (fun s ↦ keep s.version) sources with hapart | hfew
    · rw [hapart]
      exact ⟨houtcomes, rfl⟩
    · rw [← houtcomes]
      exact outcomesFrom_of_length_le_one hfew _ _
  have hrun := compileAll_settles output jobs (sources.filter fun s ↦ keep s.version) h₂
  rw [hsame.1, settled_filter keep hsettled] at hrun
  exact ⟨hrun.1, (hrun.2 _ rfl).tree.trans (hsame.2.trans (halike.tree.trans hafter.tree.symm))⟩

end EventSchema
