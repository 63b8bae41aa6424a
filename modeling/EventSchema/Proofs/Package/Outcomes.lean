import EventSchema.Proofs.Package.Arrangement
import EventSchema.Proofs.Package.Contents
import EventSchema.Proofs.Package.Placement

/-!
# What becomes of a package that is emitted

Emitting a package either ends with all its files at its place, and nothing else changed but for the
directory of the packages, or fails and leaves all as it was (`Package.emit_settles`). Where a file
stands at the place it does neither: the package takes the place, the file is moved next to it, and
emitting fails (`Package.emit_overFile`).
-/

namespace EventSchema.Package

open EventSchema.Action EventSchema.Path FileTree

variable {schema : Schema} {deferral : Deferral} {output : Path} {version : String} {t u : FileTree}

/-! ### Paths of files -/

/-- The files of a package stay below its place, and each has a path of its own. -/
structure Contained (files : Table String) : Prop where
  inside : ∀ f ∈ files.entries, ".." ∉ (ofString f.1).parts
  distinct : (files.entries.map fun f ↦ (ofString f.1).parts).Nodup

/-- A text that starts with a letter or an underscore is a path of its own right. -/
theorem relative_of_head? {s : String} {c : Char} (hs : s.toList.head? = some c) (hslash : c ≠ '/')
    (hdot : c ≠ '.') : (ofString s).root = "" ∧ (ofString s).parts ≠ [] := by
  obtain ⟨cs, hcs⟩ := List.head?_eq_some_iff.1 hs
  refine ⟨root_ofString_cons hcs hslash, ?_⟩
  have hfirst : '/' ∉ [c] := fun hmem ↦ hslash (List.mem_singleton.1 hmem).symm
  obtain ⟨more, rest, h⟩ := exists_partsOf_cons hfirst (fun _ ↦ ⟨by simp, by simp [hdot]⟩) cs
  rw [parts_ofString, hcs]
  exact h ▸ List.cons_ne_nil _ _

/-- The files of a plan can be laid next to each other. -/
theorem laid_of_filesOf {p : Plan} {files : Table String} (h : filesOf p = .ok files)
    (hcontained : Contained files) : Laid files.entries where
  relative f hf := by
    rcases path_of_filesOf h (Table.get?_eq_some_iff.2 hf) with hpath |
      ⟨folder, module, hfolder, hpath⟩
    · rw [hpath]
      exact relative_of_head? (c := '_') rfl (by decide) (by decide)
    · simp only [List.mem_cons, List.not_mem_nil, or_false] at hfolder
      rcases hfolder with rfl | rfl | rfl
      all_goals
        rw [hpath]
        refine relative_of_head? (head?_modulePath (by decide) module) ?_ ?_ <;> decide
  inside := hcontained.inside
  distinct := hcontained.distinct

/-! ### Emitting -/

/-- What becomes of a file system when a package is emitted. -/
inductive Emitting (schema : Schema) (deferral : Deferral) (output : Path) (t : FileTree) :
    Except EmitError Path → FileTree → Prop
  /-- The files of the package stand at its place. Elsewhere all is as before, but the directory of
  the packages may be new, and what it lies in. -/
  | placed {u : FileTree} {version : String} {p : Plan} {files : Table String}
      (hversion : schema.version = .str version)
      (hfiles : packageFiles schema deferral = .ok (p, files))
      (hholds : Holds u (placeOf output version).trail files.entries)
      (hfile : ∀ text, t.view (placeOf output version).trail ≠ some (.file text))
      (hkept : ∀ q, ¬ (placeOf output version).trail <+: q → GrownAt output t u q) :
      Emitting schema deferral output t (.ok (placeOf output version)) u
  /-- It fails, and all is as before, but the directory of the packages may be new, and what it lies
  in. -/
  | refused {u : FileTree} {e : EmitError} (hgrown : Grown output t u) :
      Emitting schema deferral output t (.error e) u
  /-- It fails because a file stands at the place, but the files of the package stand there then,
  and the file stands next to them. -/
  | stranded {u : FileTree} {version text : String} {p : Plan} {files : Table String} (s : Suffix)
      (hversion : schema.version = .str version)
      (hfiles : packageFiles schema deferral = .ok (p, files))
      (hholds : Holds u (placeOf output version).trail files.entries)
      (hfile : t.view (placeOf output version).trail = some (.file text))
      (hfree : t.view (oldOf (placeOf output version) s).trail = none)
      (haside : u.view (oldOf (placeOf output version) s).trail = some (.file text))
      (hkept : ∀ q, ¬ (placeOf output version).trail <+: q →
        q ≠ (oldOf (placeOf output version) s).trail → GrownAt output t u q) :
      Emitting schema deferral output t
        (.error (.file ⟨.notDirectory, .removal (oldOf (placeOf output version) s).text⟩)) u

/-- What becomes of the files of a package becomes of the package. -/
theorem Placing.emitting {p : Plan} {files : Table String} {v : FileTree}
    {r : Except FileError Path} (h : Placing output version files u r v) (hgrown : Grown output t u)
    (hversion : schema.version = .str version)
    (hfiles : packageFiles schema deferral = .ok (p, files))
    (hthrough : ¬ output.LeadsThrough (placeOf output version).trail) :
    Emitting schema deferral output t (r.mapError .file) v := by
  have hplace : u.view (placeOf output version).trail = t.view (placeOf output version).trail :=
    (hgrown _).resolve_right fun hnew ↦ not_prefix_of_visits hthrough hnew.2.2 List.prefix_rfl
  cases h with
  | placed hholds hfile hkept =>
    refine .placed hversion hfiles hholds (fun text ↦ hplace ▸ hfile text) fun q hq ↦ ?_
    exact (hgrown q).trans (.inl (hkept q hq))
  | refused hview => exact .refused fun q ↦ (hgrown q).trans (.inl (by rw [hview]))
  | stranded s hholds hfile hfree haside hkept =>
    refine .stranded s hversion hfiles hholds (hplace ▸ hfile) ?_ haside fun q hq hne ↦ ?_
    · exact (hgrown _).elim (fun heq ↦ heq ▸ hfree) fun hnew ↦ hnew.1
    · exact (hgrown q).trans (.inl (hkept q hq hne))

/-- A version that is a text has a slug, and no other has. -/
theorem slugOf_cases (v : Json) :
    (∃ version, v = .str version ∧ slugOf v = .ok (Identifier.versionSlug version)) ∨
      ∃ e, slugOf v = .error e := by
  cases v with
  | str version => exact .inl ⟨version, rfl, rfl⟩
  | _ => exact .inr ⟨_, rfl⟩

/-- How emitting a schema ends. -/
theorem ends_emit (hread : output.IsRead)
    (hcontained : ∀ p files, packageFiles schema deferral = .ok (p, files) → Contained files)
    (hthrough : ∀ version, schema.version = .str version →
      ¬ output.LeadsThrough (placeOf output version).trail) :
    Ends (emit schema deferral output) t (Emitting schema deferral output t) := by
  cases hpackage : packageFiles schema deferral with
  | error e =>
    intro w hw
    rw [execute_emit_error hpackage, hw]
    exact .refused (.refl output t)
  | ok found =>
    obtain ⟨p, files⟩ := found
    obtain ⟨hplan, hfiles⟩ := packageFiles_eq_ok_iff.1 hpackage
    have hlaid : Laid files.entries := laid_of_filesOf hfiles (hcontained _ _ hpackage)
    unfold emit
    refine .bind_ofExcept (by rw [hplan]; rfl) (.bind_ofExcept (by rw [hfiles]; rfl) ((Ends.mapError
      (g := EmitError.file)
      (Q := fun r u ↦ (∃ r', r = Except.mapError EmitError.file r' ∧ MadeDir output t r' u))
      ((ends_ensureDirs output t).mono fun r _ h ↦ ⟨r, rfl, h⟩)).bind ?_ ?_))
    · rintro a u ⟨r, hr, hgrown, hmade⟩
      obtain ⟨hadmits, hdir⟩ := hmade (mapError_eq_ok hr.symm)
      rcases slugOf_cases schema.version with ⟨version, hversion, hslug⟩ | ⟨e, hslug⟩
      · have hplaced := (ends_placeFiles hread hadmits hdir hlaid (hthrough version hversion)).mono
          fun r v h ↦ h.emitting hgrown hversion hpackage (hthrough version hversion)
        refine .bind_ofExcept (by rw [hslug]; rfl)
          (hplaced.mapError.bind (fun target v h ↦ ?_) fun _ _ h ↦ h)
        refine (Ends.report (Q := fun r w ↦ r = .ok () ∧
          Emitting schema deferral output t (.ok target) w) ⟨rfl,
          h⟩).bind (fun _ _ h ↦ .pure h.2) fun _ _ h ↦ by cases h.1
      · rw [hslug]
        refine Ends.bind (Q := fun r v ↦ (∃ e, r = .error e) ∧ v = u)
          (.ofExcept ⟨⟨_, rfl⟩, rfl⟩) ?_ ?_
        · rintro slug v ⟨⟨e, he⟩, -⟩
          cases he
        · rintro e v ⟨-, rfl⟩
          exact .refused hgrown
    · rintro e u ⟨r, -, hgrown, -⟩
      exact .refused hgrown

/-- A package whose files stay below its place, in a directory that is not reached through that
place, is placed with all its files or leaves all as it was, unless a file stands at the place. -/
theorem emit_settles (schema : Schema) (deferral : Deferral) (text : String) (w : Workspace)
    (hcontained : ∀ p files, packageFiles schema deferral = .ok (p, files) → Contained files)
    (hthrough : ∀ version, schema.version = .str version →
      ¬ (Path.ofString text).LeadsThrough (placeOf (.ofString text) version).trail) :
    Emitting schema deferral (.ofString text) w.tree
      (execute (emit schema deferral (.ofString text)) w).1
      (execute (emit schema deferral (.ofString text)) w).2.tree :=
  ends_emit (isRead_ofString text) hcontained hthrough w rfl

/-! ### A package without entities -/

/-- A schema without entities. -/
def bareSchema : Schema := ⟨.str "1.7.0", .empty, .empty, .empty⟩

/-- The plan of a schema without entities. -/
def barePlan : Plan := ⟨bareSchema, nothingLate, .empty, .empty, .empty, []⟩

/-- The files of a package without entities. -/
def bareFiles : Table String := .ofList [
  ("objects/__init__.py", (Barrel.ofObjects barePlan).text),
  ("events/__init__.py", (Barrel.ofEvents barePlan).text),
  ("enums/__init__.py", (Barrel.ofEnums barePlan).text),
  ("__init__.py", rootText (.str "1.7.0"))]

/-- The schema of a version without entities. -/
def bareSchemaOf (v : String) : Schema := { bareSchema with version := .str v }

/-- Its plan. -/
def barePlanOf (v : String) : Plan := { barePlan with schema := bareSchemaOf v }

/-- The files of its package. -/
def bareFilesOf (v : String) : Table String := .ofList [
  ("objects/__init__.py", (Barrel.ofObjects (barePlanOf v)).text),
  ("events/__init__.py", (Barrel.ofEvents (barePlanOf v)).text),
  ("enums/__init__.py", (Barrel.ofEnums (barePlanOf v)).text),
  ("__init__.py", rootText (.str v))]

theorem plan_bareSchemaOf (v : String) :
    plan (bareSchemaOf v) nothingLate = .ok (barePlanOf v) := by
  have hevents : plannedEvents (bareSchemaOf v) = .empty := by
    rw [plannedEvents, bareSchemaOf, bareSchema, Table.sorted_empty]
    rfl
  refine plan_eq_ok_iff.2 ⟨rfl, rfl, hevents.symm, ?_, ?_, rfl, rfl, objectOrder_empty _⟩
  · rw [hevents]
    exact plannedObjects_of_empty rfl rfl
  · rw [hevents]
    exact plannedEnums_of_empty rfl rfl

theorem filesOf_barePlanOf (v : String) : filesOf (barePlanOf v) = .ok (bareFilesOf v) := rfl

theorem packageFiles_bareSchemaOf (v : String) :
    packageFiles (bareSchemaOf v) nothingLate = .ok (barePlanOf v, bareFilesOf v) :=
  packageFiles_eq_ok_iff.2 ⟨plan_bareSchemaOf v, filesOf_barePlanOf v⟩

theorem packageFiles_bareSchema : packageFiles bareSchema nothingLate = .ok (barePlan, bareFiles) :=
  packageFiles_bareSchemaOf "1.7.0"

/-- The package of a version without entities states the version. -/
theorem root_bareFilesOf (v : String) : (bareFilesOf v).get? initFile = some (rootText (.str v)) :=
  root_of_filesOf (p := barePlanOf v) (filesOf_barePlanOf v)

theorem contained_bareFilesOf (v : String) : Contained (bareFilesOf v) := by
  have hparts : (bareFilesOf v).entries.map (fun f ↦ (ofString f.1).parts) =
      ["objects/__init__.py", "events/__init__.py", "enums/__init__.py", "__init__.py"].map
        fun path ↦ (ofString path).parts := rfl
  have hdistinct :
      (["objects/__init__.py", "events/__init__.py", "enums/__init__.py", "__init__.py"].map
      fun path ↦ (ofString path).parts).Nodup := by decide +kernel
  refine ⟨fun f hf ↦ ?_, hparts ▸ hdistinct⟩
  have hmem : (ofString f.1).parts ∈ (bareFilesOf v).entries.map fun f ↦ (ofString f.1).parts :=
    List.mem_map_of_mem hf
  have hplain : ∀ parts ∈ ["objects/__init__.py", "events/__init__.py", "enums/__init__.py",
      "__init__.py"].map fun path ↦ (ofString path).parts, ".." ∉ parts := by decide +kernel
  exact hplain _ (hparts ▸ hmem)

theorem contained_bareFiles {p : Plan} {files : Table String}
    (h : packageFiles bareSchema nothingLate = .ok (p, files)) : Contained files := by
  obtain rfl := (Prod.mk.inj (Except.ok.inj (packageFiles_bareSchema.symm.trans h))).2
  exact contained_bareFilesOf "1.7.0"

theorem writeFiles_bareFilesOf (v : String) (root : Path) :
    writeFiles root (bareFilesOf v) = (bareFilesOf v).entries.reverse.forM (writeOne root) := by
  have hpaths : (bareFilesOf v).entries.reverse.map Prod.fst =
    ["__init__.py", "enums/__init__.py", "events/__init__.py", "objects/__init__.py"] := rfl
  have hnodup : (Entries.names (bareFilesOf v).entries.reverse).Nodup := by
    rw [Entries.names, hpaths]
    decide
  have hsame : (bareFilesOf v).SameMap ⟨(bareFilesOf v).entries.reverse, hnodup⟩ :=
    Table.get?_eq_of_mem_iff fun _ ↦ List.mem_reverse.symm
  have hordered : ((bareFilesOf v).entries.reverse.map Prod.fst).Pairwise fun a b ↦ a ≤ b := by
    rw [hpaths]
    decide +kernel
  have hsorted : (bareFilesOf v).sorted = ⟨(bareFilesOf v).entries.reverse, hnodup⟩ :=
    hsame.sorted_eq.trans (Table.sorted_eq_self (List.pairwise_map.1 hordered))
  rw [writeFiles, hsorted]
  rfl

/-- What becomes of the file system when the package of a version without entities is emitted. -/
theorem execute_emit_bareSchemaOf (v : String) (output : Path) (w : Workspace) :
    execute (emit (bareSchemaOf v) nothingLate output) w = execute (do
      Action.mapError .file (Action.ensureDirs output)
      let slug ← Action.ofExcept ((slugOf (.str v)).mapError .version)
      let target ← Action.mapError .file (do
        let staging ← Action.makeTemporary output s!".{slug}-staging-"
        Action.onFailure (do
            (bareFilesOf v).entries.reverse.forM (writeOne staging)
            replaceDir staging (output.joinText slug))
          (Action.discard staging)
        pure (output.joinText slug))
      Action.report .info (emittedNotice (barePlanOf v) target)
      pure target) w := by
  have hplan :
      (plan (bareSchemaOf v) nothingLate).mapError EmitError.plan = .ok (barePlanOf v) := by
    rw [plan_bareSchemaOf]
    rfl
  have hfiles : (filesOf (barePlanOf v)).mapError EmitError.render = .ok (bareFilesOf v) := by
    rw [filesOf_barePlanOf]
    rfl
  rw [emit, execute_bind_ok (execute_ofExcept hplan _), execute_bind_ok (execute_ofExcept hfiles _)]
  simp only [placeFiles, writeFiles_bareFilesOf]
  rfl

/-- A package of an earlier run, with a file that is no part of it now, next to another file. -/
def earlierPackage : FileTree :=
  .dir [("out", .dir [("v1_7", .dir [("stale.py", .file "")]), ("notes.txt", .file "kept")])]

/-- A file at the place of a package. -/
def takenPlace : FileTree := .dir [("out", .dir [("v1_7", .file "kept")])]

/-- Where a package of an earlier run stands, the new one is placed; where a file stands, that
fails, and there is a directory instead of the file. -/
theorem execute_emit_bareSchema :
    (execute (emit bareSchema nothingLate (.ofString "out")) (.ofTree earlierPackage)).1.isOk =
      true ∧
      (execute (emit bareSchema nothingLate (.ofString "out")) (.ofTree takenPlace)).1.isOk =
        false ∧
      (execute (emit bareSchema nothingLate (.ofString "out")) (.ofTree takenPlace)).2.tree.view
        ["out", "v1_7"] = some .dir := by
  have hemit (w : Workspace) := execute_emit_bareSchemaOf "1.7.0" (.ofString "out") w
  simp only [show bareSchema = bareSchemaOf "1.7.0" from rfl, hemit]
  decide +kernel

/-- Next to the files of the package without entities no stale file stands. -/
theorem view_of_holds_bareFiles {trail : List String} (h : Holds t trail bareFiles.entries) :
    t.view (trail ++ ["stale.py"]) = none := by
  rcases hview : t.view (trail ++ ["stale.py"]) with _ | text | _
  · rfl
  · obtain ⟨key, hkey, hparts⟩ := (h.file_iff ["stale.py"] text).1 hview
    have hother : ∀ f ∈ bareFiles.entries, (ofString f.1).parts ≠ ["stale.py"] := by decide +kernel
    exact absurd hparts (hother _ hkey)
  · obtain hnil | ⟨f, hf, hway⟩ := (h.dir_iff ["stale.py"]).1 hview
    · cases hnil
    · have hother : ∀ f ∈ bareFiles.entries, ¬ ["stale.py"] <+: (ofString f.1).parts := by
        decide +kernel
      exact absurd hway.1 (hother f hf)

/-- The package without entities takes the place of an earlier one: its files stand there, what was
no part of it is gone, and what stood next to it stays. -/
theorem emit_settles_bareSchema :
    (∀ p files, packageFiles bareSchema nothingLate = .ok (p, files) → Contained files) ∧
      ¬ (Path.ofString "out").LeadsThrough (placeOf (.ofString "out") "1.7.0").trail ∧
      ∃ u, execute (emit bareSchema nothingLate (.ofString "out")) (.ofTree earlierPackage) =
          (.ok (placeOf (.ofString "out") "1.7.0"), u) ∧
        Holds u.tree ["out", "v1_7"] bareFiles.entries ∧
        u.tree.view ["out", "v1_7", "stale.py"] = none ∧
        u.tree.view ["out", "notes.txt"] = some (.file "kept") := by
  have hthrough : ¬ (Path.ofString "out").LeadsThrough (placeOf (.ofString "out") "1.7.0").trail :=
    not_leadsThrough_of_plain (by decide +kernel) "1.7.0"
  refine ⟨fun p files ↦ contained_bareFiles, hthrough, ?_⟩
  have hsettled := emit_settles bareSchema nothingLate "out" (.ofTree earlierPackage)
    (fun p files ↦ contained_bareFiles) fun version hversion ↦ by
      obtain rfl := Json.str.inj hversion
      exact hthrough
  have hok := execute_emit_bareSchema.1
  rcases hrun :
    execute (emit bareSchema nothingLate (.ofString "out")) (.ofTree earlierPackage) with ⟨r, u⟩
  rw [hrun] at hsettled hok
  have hplace : (placeOf (.ofString "out") "1.7.0").trail = ["out", "v1_7"] := by decide +kernel
  generalize htree : u.tree = v at hsettled
  cases hsettled with
  | placed hversion hfiles hholds hfile hkept =>
    obtain rfl := Json.str.inj hversion
    obtain rfl := (Prod.mk.inj (Except.ok.inj (packageFiles_bareSchema.symm.trans hfiles))).2
    rw [hplace] at hholds hkept
    refine ⟨u, rfl, htree ▸ hholds, htree ▸ view_of_holds_bareFiles hholds, htree ▸ ?_⟩
    have hnotes : (Workspace.ofTree earlierPackage).tree.view ["out", "notes.txt"] =
        some (.file "kept") := rfl
    rcases hkept ["out", "notes.txt"] (by decide) with heq | ⟨hnone, -, -⟩
    · exact heq.trans hnotes
    · rw [hnotes] at hnone
      cases hnone
  | refused hgrown => cases hok
  | stranded s => cases hok

/-- Where a file stands at the place of a package, emitting fails and does not leave the file
there. -/
theorem emit_takenPlace : ∃ e u,
    execute (emit bareSchema nothingLate (.ofString "out")) (.ofTree takenPlace) = (.error e, u) ∧
      ¬ Grown (.ofString "out") takenPlace u.tree := by
  obtain ⟨-, hfails, hdir⟩ := execute_emit_bareSchema
  rcases hrun :
    execute (emit bareSchema nothingLate (.ofString "out")) (.ofTree takenPlace) with ⟨r, u⟩
  rw [hrun] at hfails hdir
  cases r with
  | ok path => cases hfails
  | error e =>
    refine ⟨e, u, rfl, fun hgrown ↦ ?_⟩
    have hfile : takenPlace.view ["out", "v1_7"] = some (.file "kept") := rfl
    rcases hgrown ["out", "v1_7"] with heq | ⟨hnone, -, -⟩
    · rw [hdir, hfile] at heq
      cases heq
    · rw [hfile] at hnone
      cases hnone

end EventSchema.Package
