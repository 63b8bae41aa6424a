import EventSchema.Package.Placement
import EventSchema.Proofs.Package.Rendering
import EventSchema.Proofs.Workspaces

/-!
# Emitting packages

The plan of a package and the texts of its files are there before the file system is touched
(`packageFiles`). A schema without them leaves the workspace as it is (`execute_emit_error`); with
them only the file system can refuse (`emit_error_file`).
-/

namespace EventSchema.Package

open EventSchema.Action

/-! ### What was reported before -/

theorem appends_writeFiles (root : Path) (files : Table String) : Appends (writeFiles root files) :=
  .forM (fun _ ↦ (Appends.ensureDirs _).bind fun _ ↦ .edit _) _

theorem appends_replaceDir (staging target : Path) : Appends (replaceDir staging target) := by
  refine (Appends.look _).bind fun found ↦ ?_
  cases found with
  | false => exact .edit _
  | true =>
    exact (Appends.makeTemporary _ _).bind fun _ ↦ (Appends.edit _).bind fun _ ↦
      (Appends.edit _).bind fun _ ↦ (Appends.edit _).bind fun _ ↦ .edit _

theorem appends_placeFiles (output : Path) (slug : String) (files : Table String) :
    Appends (placeFiles output slug files) :=
  (Appends.makeTemporary _ _).bind fun _ ↦
    (Appends.onFailure ((appends_writeFiles _ _).bind fun _ ↦ appends_replaceDir _ _)
      (.discard _)).bind fun _ ↦ .pure _

theorem appends_emit (schema : Schema) (deferral : Deferral) (output : Path) :
    Appends (emit schema deferral output) :=
  (Appends.ofExcept _).bind fun _ ↦ (Appends.ofExcept _).bind fun _ ↦
    (Appends.mapError (.ensureDirs _)).bind fun _ ↦ (Appends.ofExcept _).bind fun _ ↦
      (Appends.mapError (appends_placeFiles _ _ _)).bind fun _ ↦ (Appends.report _ _).bind fun _ ↦
        .pure _

/-- The alias depends on the file system alone. -/
theorem onTree_emitLatest (output : Path) (version : String) :
    OnTree (emitLatest output version) := by
  have hlatest : OnTree (do
      let latest := output.child "latest.py"
      Action.edit (FileTree.writeFile latest (latestText version))
      Action.report .info s!"Emitted {latest.text} aliasing {Identifier.versionSlug version}"
      Pure.pure latest : Action FileError Path) :=
    (OnTree.edit _).bind fun _ ↦ (OnTree.report _ _).bind fun _ ↦ .pure _
  refine (OnTree.look _).bind fun found ↦ ?_
  cases found with
  | true => exact hlatest
  | false => exact (OnTree.edit _).bind fun _ ↦ hlatest

/-! ### Failures -/

variable {schema : Schema} {deferral : Deferral} {output : Path} {w : Workspace} {e : EmitError}

/-- The plan of a package and its files, which are there before anything is written. -/
def packageFiles (schema : Schema) (deferral : Deferral) :
    Except EmitError (Plan × Table String) := do
  let p ← (plan schema deferral).mapError .plan
  let files ← (filesOf p).mapError .render
  .ok (p, files)

theorem packageFiles_eq_ok_iff {p : Plan} {files : Table String} :
    packageFiles schema deferral = .ok (p, files) ↔ plan schema deferral = .ok p ∧
    filesOf p = .ok files := by
  constructor
  · intro h
    obtain ⟨p', hplan, h⟩ := bind_eq_ok h
    obtain ⟨files', hfiles, h⟩ := bind_eq_ok h
    obtain ⟨rfl, rfl⟩ := Prod.mk.inj (Except.ok.inj h)
    exact ⟨mapError_eq_ok hplan, mapError_eq_ok hfiles⟩
  · rintro ⟨hplan, hfiles⟩
    rw [packageFiles, hplan]
    simp only [mapError_ok, bind, Except.bind, hfiles]

/-- What cannot be planned and written as text leaves the workspace as it is. -/
theorem execute_emit_error (h : packageFiles schema deferral = .error e) :
    execute (emit schema deferral output) w = (.error e, w) := by
  unfold emit
  rcases bind_eq_error h with hp | ⟨p, hp, h⟩
  · exact execute_bind_error (execute_ofExcept hp w)
  rcases bind_eq_error h with hf | ⟨files, hf, h⟩
  · rw [execute_bind_ok (execute_ofExcept hp w)]
    exact execute_bind_error (execute_ofExcept hf w)
  · cases h

/-- What can be planned and written as text is emitted, or the file system refuses. -/
theorem emit_error_file {version : String} {p : Plan × Table String}
    (hversion : schema.version = .str version) (h : packageFiles schema deferral = .ok p)
    (he : (execute (emit schema deferral output) w).1 = .error e) : ∃ f, e = .file f := by
  obtain ⟨found, hfound, h⟩ := bind_eq_ok h
  obtain ⟨files, hfiles, h⟩ := bind_eq_ok h
  have hslug : slugOf schema.version = .ok (Identifier.versionSlug version) := by
    rw [hversion, slugOf]
  unfold emit at he
  rw [execute_bind_ok (execute_ofExcept hfound w),
    execute_bind_ok (execute_ofExcept hfiles w)] at he
  rcases execute_bind_eq_error he with ⟨w₁, he⟩ | ⟨⟨⟩, w₁, -, he⟩
  · rw [execute_mapError] at he
    obtain ⟨f, -, rfl⟩ := mapError_eq_error (Prod.mk.inj he).1
    exact ⟨f, rfl⟩
  rw [hslug] at he
  rcases execute_bind_eq_error he with ⟨w₂, he⟩ | ⟨slug, w₂, -, he⟩
  · cases he
  rcases execute_bind_eq_error he with ⟨w₃, he⟩ | ⟨target, w₃, -, he⟩
  · rw [execute_mapError] at he
    obtain ⟨f, -, rfl⟩ := mapError_eq_error (Prod.mk.inj he).1
    exact ⟨f, rfl⟩
  · cases he

end EventSchema.Package
