import EventSchema.Proofs.Catalog.Faults
import EventSchema.Proofs.Catalog.Reporting
import EventSchema.Proofs.Package.Emission
import EventSchema.Release.Compilation

/-!
# Compiling a version

What a schema tree comes to is settled by the tree alone (`Source.package`): a plan with the texts
of its files, or the reason why there is none. A version without a package leaves the workspace as
it was, up to lines in the journal (`execute_compile_error`); for a version with one only the file
system can refuse (`compile_error_file`).

A failure stops the whole run if it is not counted among those of a version. `Source.Escapes` says
for which trees this happens: a value without members is asked for one while the tree is read, or an
event class has an identifier that is out of range (`package_escapes_iff`). Where such values stand
in the files of the tree is said by `Source.Escapes.cause`.
-/

namespace EventSchema

open Package

/-! ### What a schema tree comes to -/

/-- The plan of the package of a catalog and the texts of its files, or why there are none. -/
def Catalog.package (c : Catalog) : Except CompileError (Plan × Table String) := do
  let schema ← c.resolve.outcome.1.mapError .lineage
  let deferral ← (ReferenceGraph.ofObjects schema.objects).defer.outcome.1.mapError .deferral
  (packageFiles schema deferral).mapError .emit

/-- The plan of the package of a schema tree and the texts of its files, or why there are none. The
package gets the version that is asked for. -/
def Source.package (tree : FileTree) (source : Source) :
    Except CompileError (Plan × Table String) := do
  let c ← (Catalog.read tree source.path).outcome.1.mapError .catalog
  { c with version := .str source.version }.package

variable {c : Catalog} {source : Source} {output : Path} {w : Workspace} {e : CompileError}
  {package : Plan × Table String}

/-! ### The steps of a compilation -/

theorem appends_emitCatalog (c : Catalog) (output : Path) :
    Action.Appends (emitCatalog c output) :=
  (Action.Appends.ofReporting (appends_resolve c).mapError).bind fun _ ↦
    (Action.Appends.ofReporting (appends_defer _).mapError).bind fun _ ↦
      (appends_emit _ _ _).mapError

/-- Reading a catalog for a version changes the journal alone. -/
theorem execute_readCatalog (path : Path) (w : Workspace) :
    execute (readCatalog path) w =
      (((Catalog.read w.tree path).outcome.1.mapError .catalog).map
          fun c ↦ (c, (Catalog.read w.tree path).outcome.2.warnings),
        { w with journal := w.journal ++ (Catalog.read w.tree path).outcome.2 }) := by
  have hread := Action.execute_ofReporting_of_appends
    (Reporting.Appends.mapError (g := CompileError.catalog) (appends_read w.tree path)) w
  have hget : execute (get : Action CompileError Workspace) w = (.ok w, w) := rfl
  unfold readCatalog
  rw [execute_bind_ok hget, execute_bind, hread]
  rw [Reporting.outcome_eq, Reporting.execute_mapError, ← Reporting.outcome_eq]
  rcases (Catalog.read w.tree path).outcome with ⟨x | c, lines⟩
  · rfl
  · have hwarnings : (w.journal ++ lines).warnings - w.journal.warnings = lines.warnings := by
      rw [Journal.warnings, List.countP_append]
      exact Nat.add_sub_cancel_left _ _
    exact congrArg (fun n ↦ (Except.ok (c, n), _)) hwarnings

theorem appends_readCatalog (path : Path) : Action.Appends (readCatalog path) := fun earlier w ↦ by
  simp only [execute_readCatalog, Action.putBefore, List.append_assoc]

theorem appends_compile (output : Path) (source : Source) :
    Action.Appends (compile output source) := by
  refine (Action.Appends.report _ _).bind fun _ ↦ (appends_readCatalog _).bind fun found ↦ ?_
  have hemit : ∀ warnings : Nat, Action.Appends (do
      let path ← emitCatalog { found.1 with version := .str source.version } output
      if warnings = 0 then
        Action.report .info s!"Compile of {source.version} completed successfully"
      else
        Action.report .warning s!"Compile of {source.version} completed with {warnings} warnings(s)"
      Pure.pure (⟨path, warnings⟩ : Compiled)) := fun warnings ↦ by
    refine (appends_emitCatalog _ _).bind fun path ↦ ?_
    split
    · exact (Action.Appends.report _ _).bind fun _ ↦ .pure _
    · exact (Action.Appends.report _ _).bind fun _ ↦ .pure _
  dsimp only
  cases found.1.version.isText source.version with
  | false => exact (Action.Appends.report _ _).bind fun _ ↦ hemit _
  | true => exact hemit _

/-- A catalog without a package leaves the workspace as it is, up to lines in the journal. -/
theorem execute_emitCatalog_error (h : c.package = .error e) (output : Path) (w : Workspace) :
    ∃ j, execute (emitCatalog c output) w = (.error e, { w with journal := j }) := by
  have hresolve := Action.execute_ofReporting_of_appends
    (Reporting.Appends.mapError (g := CompileError.lineage) (appends_resolve c)) w
  rcases bind_eq_error h with hs | ⟨schema, hs, h⟩
  · exact ⟨_, execute_bind_error (hresolve.trans (congrArg (·, _) hs))⟩
  have hdefer := fun w ↦ Action.execute_ofReporting_of_appends
    (Reporting.Appends.mapError (g := CompileError.deferral)
      (appends_defer (ReferenceGraph.ofObjects schema.objects))) w
  unfold emitCatalog
  rw [execute_bind_ok (hresolve.trans (congrArg (·, _) hs))]
  rcases bind_eq_error h with hd | ⟨deferral, hd, h⟩
  · exact ⟨_, execute_bind_error ((hdefer _).trans (congrArg (·, _) hd))⟩
  rw [execute_bind_ok ((hdefer _).trans (congrArg (·, _) hd))]
  obtain ⟨x, hx, rfl⟩ := mapError_eq_error h
  rw [Action.execute_mapError, execute_emit_error hx]
  exact ⟨_, rfl⟩

/-- A catalog with a package is emitted, once its entities and deferral are worked out. -/
theorem execute_emitCatalog {p : Plan} {files : Table String} (h : c.package = .ok (p, files))
    (output : Path) (w : Workspace) : p.schema.version = c.version ∧
      packageFiles p.schema p.deferral = .ok (p, files) ∧ ∃ j, execute (emitCatalog c output) w =
        execute (Action.mapError .emit (emit p.schema p.deferral output))
          { w with journal := j } := by
  obtain ⟨schema, hs, h⟩ := bind_eq_ok h
  obtain ⟨deferral, hd, h⟩ := bind_eq_ok h
  have hfiles := mapError_eq_ok h
  have hp := plan_eq_ok_iff.1 (packageFiles_eq_ok_iff.1 hfiles).1
  obtain rfl := hp.schema
  obtain rfl := hp.deferral
  refine ⟨Catalog.version_of_resolve (mapError_eq_ok hs), hfiles, ?_⟩
  unfold emitCatalog
  rw [execute_bind_ok ((Action.execute_ofReporting_of_appends
      (Reporting.Appends.mapError (g := CompileError.lineage) (appends_resolve c)) w).trans
        (congrArg (·, _) hs)),
    execute_bind_ok ((Action.execute_ofReporting_of_appends
      (Reporting.Appends.mapError (g := CompileError.deferral) (appends_defer _)) _).trans
        (congrArg (·, _) hd))]
  exact ⟨_, rfl⟩

/-- For a catalog with a package only the file system can refuse. -/
theorem emitCatalog_error_file {version : String} (hversion : c.version = .str version)
    (h : c.package = .ok package) (he : (execute (emitCatalog c output) w).1 = .error e) :
    ∃ f, e = .emit (.file f) := by
  obtain ⟨hschema, hfiles, j, hrun⟩ := execute_emitCatalog h output w
  rw [hrun] at he
  obtain ⟨x, hx, rfl⟩ := mapError_eq_error he
  obtain ⟨f, rfl⟩ := emit_error_file (hschema.trans hversion) hfiles hx
  exact ⟨f, rfl⟩

/-! ### Compilations -/

/-- A tree that cannot be read leaves the workspace as it is, up to lines in the journal. -/
theorem execute_compile_of_read_error {x : CatalogError}
    (h : (Catalog.read w.tree source.path).outcome.1 = .error x) :
    ∃ j, execute (compile output source) w = (.error (.catalog x), { w with journal := j }) := by
  obtain ⟨j, hread⟩ : ∃ j, execute (readCatalog source.path)
      { w with journal := w.journal ++ [⟨.info, s!"Compiling schema {source.version}"⟩] } =
        (.error (.catalog x), { w with journal := j }) := by
    rw [execute_readCatalog, h]
    exact ⟨_, rfl⟩
  exact ⟨j, (execute_bind_ok (Action.execute_report _ _ w)).trans (execute_bind_error hread)⟩

/-- Once a tree is read the catalog is emitted with the version that is asked for. What comes before
and after that only reports. -/
theorem execute_compile_of_read (h : (Catalog.read w.tree source.path).outcome.1 = .ok c) :
    ∃ (j : Journal) (finish : Path → Action CompileError Compiled),
      (∀ path w', ∃ r j', execute (finish path) w' = (.ok r, { w' with journal := j' })) ∧
      execute (compile output source) w =
        execute (emitCatalog { c with version := .str source.version } output >>= finish)
          { w with journal := j } := by
  obtain ⟨n, j, hread⟩ : ∃ n j, execute (readCatalog source.path)
      { w with journal := w.journal ++ [⟨.info, s!"Compiling schema {source.version}"⟩] } =
        (.ok (c, n), { w with journal := j }) := by
    rw [execute_readCatalog, h]
    exact ⟨_, _, rfl⟩
  let finish (warnings : Nat) (path : Path) : Action CompileError Compiled := do
    if warnings = 0 then
      Action.report .info s!"Compile of {source.version} completed successfully"
    else
      Action.report .warning s!"Compile of {source.version} completed with {warnings} warnings(s)"
    pure ⟨path, warnings⟩
  have hfinish : ∀ warnings path w', ∃ r j',
      execute (finish warnings path) w' = (.ok r, { w' with journal := j' }) :=
    fun warnings path w' ↦ by
    by_cases hn : warnings = 0
    · simp only [finish, if_pos hn]
      exact ⟨_, _, rfl⟩
    · simp only [finish, if_neg hn]
      exact ⟨_, _, rfl⟩
  unfold compile
  rw [execute_bind_ok (Action.execute_report _ _ w), execute_bind_ok hread]
  dsimp only
  -- a tree that states another version gets one more warning
  cases c.version.isText source.version with
  | true => exact ⟨j, finish n, hfinish n, rfl⟩
  | false => exact ⟨_, finish (n + 1), hfinish (n + 1), rfl⟩

/-- A version without a package leaves the workspace as it is, up to lines in the journal. -/
theorem execute_compile_error (h : source.package w.tree = .error e) (output : Path) :
    ∃ j, execute (compile output source) w = (.error e, { w with journal := j }) := by
  rcases bind_eq_error h with hc | ⟨c, hc, h⟩
  · obtain ⟨x, hx, rfl⟩ := mapError_eq_error hc
    exact execute_compile_of_read_error hx
  · obtain ⟨j, finish, -, hrun⟩ := execute_compile_of_read (mapError_eq_ok hc)
    obtain ⟨j', hemit⟩ := execute_emitCatalog_error h output { w with journal := j }
    exact ⟨j', hrun.trans (execute_bind_error hemit)⟩

/-- A version with a package is emitted. What comes before and after that only reports. -/
theorem execute_compile_of_package {p : Plan} {files : Table String}
    (h : source.package w.tree = .ok (p, files)) (output : Path) :
    p.schema.version = .str source.version ∧ packageFiles p.schema p.deferral = .ok (p, files) ∧
      (execute (compile output source) w).1.isOk =
        (execute (emit p.schema p.deferral output) w).1.isOk ∧
      (execute (compile output source) w).2.Alike
        (execute (emit p.schema p.deferral output) w).2 := by
  obtain ⟨c, hc, h⟩ := bind_eq_ok h
  obtain ⟨j, finish, hfinish, hrun⟩ := execute_compile_of_read (mapError_eq_ok hc)
  obtain ⟨hversion, hfiles, j', hemit⟩ := execute_emitCatalog h output { w with journal := j }
  have hsame := (appends_emit p.schema p.deferral output).alike (Workspace.Alike.journal w j').symm
  refine ⟨hversion, hfiles, ?_⟩
  rw [hrun, execute_bind, hemit, Action.execute_mapError, ← hsame.1]
  rcases hend :
    execute (emit p.schema p.deferral output) { w with journal := j' } with ⟨x | path, w₁⟩
  · rw [hend] at hsame
    exact ⟨rfl, hsame.2⟩
  · rw [hend] at hsame
    obtain ⟨r, j₁, hok⟩ := hfinish path w₁
    change (execute (finish path) w₁).1.isOk = true ∧ (execute (finish path) w₁).2.Alike _
    rw [hok]
    exact ⟨rfl, (Workspace.Alike.journal w₁ j₁).symm.trans hsame.2⟩

/-- For a version with a package only the file system can refuse. -/
theorem compile_error_file (h : source.package w.tree = .ok package)
    (he : (execute (compile output source) w).1 = .error e) : ∃ f, e = .emit (.file f) := by
  obtain ⟨c, hc, h⟩ := bind_eq_ok h
  obtain ⟨j, finish, hfinish, hrun⟩ := execute_compile_of_read (mapError_eq_ok hc)
  rw [hrun] at he
  rcases execute_bind_eq_error he with ⟨_, hemit⟩ | ⟨path, w', -, he⟩
  · exact emitCatalog_error_file rfl h (congrArg Prod.fst hemit)
  · obtain ⟨r, j', hok⟩ := hfinish path w'
    rw [hok] at he
    cases he

/-! ### Failures that stop a run -/

/-- The failure of a schema tree is not counted among those of its version: while it is read a value
without members is asked for one, or an event class has an identifier that is out of range. -/
def Source.Escapes (tree : FileTree) (source : Source) : Prop :=
  (∃ found word, (Catalog.read tree source.path).outcome.1 =
    .error (.shape (.membersExpected found word))) ∨
  ∃ c uid, (Catalog.read tree source.path).outcome.1 = .ok c ∧
    c.resolve.outcome.1 = .error (.uidOutOfRange uid)

/-- A tree that escapes has a value without members where they are asked for, or an event class with
too large an identifier. -/
theorem Source.Escapes.cause {tree : FileTree} (h : source.Escapes tree) :
    Catalog.LacksMembers tree source.path ∨ ∃ uid, Catalog.UidTooLarge tree source.path uid := by
  rcases h with ⟨found, word, hread⟩ | ⟨c, uid, hread, hresolve⟩
  · exact .inl (Catalog.blames_of_read hread found word rfl)
  · exact .inr ⟨uid, Catalog.uidTooLarge_of_resolve hread hresolve⟩

theorem catalogError_isOfVersion {x : CatalogError}
    (h : (CompileError.catalog x).isOfVersion = false) :
    ∃ found word, x = .shape (.membersExpected found word) := by
  cases x with
  | shape y =>
    cases y with
    | membersExpected found word => exact ⟨found, word, rfl⟩
    | _ => cases h
  | _ => cases h

theorem lineageError_isOfVersion {definitions : Table Definition} {x : LineageError}
    (hx : x.IsOf definitions) (h : (CompileError.lineage x).isOfVersion = false) :
    ∃ uid, x = .uidOutOfRange uid := by
  cases x with
  | uidOutOfRange uid => exact ⟨uid, rfl⟩
  | shape y =>
    rw [CompileError.isOfVersion, hx.shape y rfl] at h
    cases h
  | _ => cases h

theorem nameCollision_isOfVersion {x : PlanError} (h : x.isNameCollision = true) :
    (CompileError.emit (.plan x)).isOfVersion = true := by
  cases x <;> first | rfl | cases h

/-- What was read and resolved fails in no way that stops a run. -/
theorem isOfVersion_of_packageFiles {s : Schema} (hs : s.TargetsDefined)
    (hnames : "" ∉ s.objects.names) (h : (do
      let deferral ← (ReferenceGraph.ofObjects s.objects).defer.outcome.1.mapError
        CompileError.deferral
      (packageFiles s deferral).mapError .emit) = .error e) : e.isOfVersion = true := by
  rcases bind_eq_error h with hd | ⟨d, hd, h⟩
  · obtain ⟨x, hx, rfl⟩ := mapError_eq_error hd
    rcases hs.closed.execute_defer [] with ⟨component, hrun, -⟩ | ⟨d, hrun, -⟩
    · obtain rfl := Except.error.inj (hrun.symm.trans hx)
      rfl
    · rw [Reporting.outcome_eq, hrun] at hx
      cases hx
  -- the deferral leaves no circle, so the plan has an order and every reference its object
  · obtain ⟨x, hx, rfl⟩ := mapError_eq_error h
    have hcycles : (ReferenceGraph.ofObjects s.objects).cyclesWithout d.pairs = [] :=
      ReferenceGraph.cyclesWithout_eq_nil_iff.2
        (ReferenceGraph.settled_of_defer (mapError_eq_ok hd)).leastDeferral.noCircle
    rcases bind_eq_error hx with hp | ⟨p, hp, hx⟩
    · obtain ⟨y, hy, rfl⟩ := mapError_eq_error hp
      rcases plan_of_targetsDefined hs hcycles with ⟨p, hok⟩ | ⟨z, hz, hcollision⟩
      · rw [hok] at hy
        cases hy
      · obtain rfl := Except.error.inj (hz.symm.trans hy)
        exact nameCollision_isOfVersion hcollision
    rcases bind_eq_error hx with hf | ⟨files, -, hx⟩
    · obtain ⟨y, hy, rfl⟩ := mapError_eq_error hf
      obtain ⟨z, rfl, hz⟩ := filesOf_error (planLinked_of_plan hs hnames (mapError_eq_ok hp)) hy
      rw [CompileError.isOfVersion, hz]
      rfl
    · cases hx

/-- A tree has no package for a reason that stops a run exactly if it escapes. -/
theorem package_escapes_iff {tree : FileTree} :
    (∃ e, source.package tree = .error e ∧ e.isOfVersion = false) ↔ source.Escapes tree := by
  constructor
  · rintro ⟨e, h, he⟩
    rcases bind_eq_error h with hc | ⟨c, hc, h⟩
    · obtain ⟨x, hx, rfl⟩ := mapError_eq_error hc
      obtain ⟨found, word, rfl⟩ := catalogError_isOfVersion he
      exact .inl ⟨found, word, hx⟩
    have hread := mapError_eq_ok hc
    rcases bind_eq_error h with hs | ⟨s, hs, h⟩
    · obtain ⟨x, hx, rfl⟩ := mapError_eq_error hs
      rw [Catalog.resolve_version_error_iff] at hx
      obtain ⟨uid, rfl⟩ := (Catalog.resolve_error hx).elim (lineageError_isOfVersion · he)
        (lineageError_isOfVersion · he)
      exact .inr ⟨c, uid, hread, hx⟩
    -- the version that is asked for changes no definition
    · have hc' : Catalog.TargetsDefined { c with version := .str source.version } :=
        ⟨(Catalog.read_targetsDefined hread).objects, (Catalog.read_targetsDefined hread).events⟩
      have hresolve := mapError_eq_ok hs
      have hnames : "" ∉ s.objects.names := fun hn ↦ Catalog.empty_not_mem_names hread
        ((entities_of_resolve hresolve).1.mem_names_iff.1 hn)
      rw [isOfVersion_of_packageFiles (hc'.resolve hresolve) hnames h] at he
      cases he
  · rintro (⟨found, word, h⟩ | ⟨c, uid, hc, h⟩)
    · refine ⟨.catalog (.shape (.membersExpected found word)), ?_, rfl⟩
      rw [Source.package, h]
      rfl
    · have hresolve : { c with version := .str source.version }.resolve.outcome.1 =
          .error (.uidOutOfRange uid) := Catalog.resolve_version_error_iff.2 h
      refine ⟨.lineage (.uidOutOfRange uid), ?_, rfl⟩
      rw [Source.package, hc]
      change Catalog.package _ = _
      rw [Catalog.package, hresolve]
      rfl

/-- A compilation fails in a way that concerns all versions exactly if its tree escapes. -/
theorem compile_escapes_iff (output : Path) :
    (∃ e, (execute (compile output source) w).1 = .error e ∧ e.isOfVersion = false) ↔
      source.Escapes w.tree := by
  rw [← package_escapes_iff]
  constructor
  · rintro ⟨e, he, hversion⟩
    cases hpackage : source.package w.tree with
    | ok package =>
      obtain ⟨f, rfl⟩ := compile_error_file hpackage he
      cases hversion
    | error x =>
      obtain ⟨j, hrun⟩ := execute_compile_error hpackage output
      rw [hrun] at he
      exact ⟨x, rfl, Except.error.inj he ▸ hversion⟩
  · rintro ⟨e, hpackage, hversion⟩
    obtain ⟨j, hrun⟩ := execute_compile_error hpackage output
    exact ⟨e, congrArg Prod.fst hrun, hversion⟩

end EventSchema
