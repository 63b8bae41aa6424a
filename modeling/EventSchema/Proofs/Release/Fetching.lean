import EventSchema.Proofs.Directories
import EventSchema.Release.Retrieval

/-!
# Retrieving versions one after another

A run over versions that is not given up deals with each of them once, in their order: it is had, or
it is listed as a failure, as retrieving it turns out at its turn (`Dealt`). Such a run is given up
exactly if, at the turn of some version, retrieving it fails for a reason that concerns all
(`retrieveAll_cases`).

Fetching fails in this way only before the clone, where the file system refuses to look for the
directory of the version or to make a staging directory (`fetchSource_error_iff`). It does not
refuse where the directory of the schema trees is there and the version is a plain name
(`Clear.not_obstructed`).
-/

namespace EventSchema

open EventSchema.Action EventSchema.Path FileTree

variable {retrieve : String → Action RetrievalError Source} {v : String} {versions : List String}
  {sources : List Source} {failures : List VersionFailure} {source : Source} {e : RetrievalError}
  {w w₁ w₂ : Workspace}

/-! ### Runs over several versions -/

/-- A run over versions that deals with each of them: one is had, or fails for a reason of its own,
which is reported. -/
inductive Dealt (retrieve : String → Action RetrievalError Source) :
    Workspace → List String → List Source → List VersionFailure → Workspace → Prop
  /-- There are no more versions. -/
  | nil (w : Workspace) : Dealt retrieve w [] [] [] w
  /-- A version is had. -/
  | had {v : String} {path : Path} {versions : List String} {sources : List Source}
      {failures : List VersionFailure} {w w₁ w₂ : Workspace}
      (h : execute (retrieve v) w = (.ok ⟨v, path⟩, w₁))
      (rest : Dealt retrieve w₁ versions sources failures w₂) :
      Dealt retrieve w (v :: versions) (⟨v, path⟩ :: sources) failures w₂
  /-- A version fails. -/
  | failed {v : String} {e : RetrievalError} {versions : List String} {sources : List Source}
      {failures : List VersionFailure} {w w₁ w₂ : Workspace}
      (h : execute (retrieve v) w = (.error e, w₁)) (he : e.isOfVersion = true)
      (rest : Dealt retrieve
        { w₁ with journal := w₁.journal ++ [⟨.error, e.message⟩] } versions sources failures w₂) :
      Dealt retrieve w (v :: versions) sources (⟨v, e.message⟩ :: failures) w₂

/-- Each version of a run is dealt with once: what is had and what failed are in the order of the
versions, and make them up together. -/
theorem Dealt.parts_versions (h : Dealt retrieve w versions sources failures w₁) :
    (sources.map (·.version)).Sublist versions ∧ (failures.map (·.version)).Sublist versions ∧
      (sources.map (·.version) ++ failures.map (·.version)).Perm versions := by
  induction h with
  | nil w => exact ⟨.slnil, .slnil, .nil⟩
  | had h rest ih => exact ⟨ih.1.cons_cons _, ih.2.1.cons _, ih.2.2.cons _⟩
  | failed h he rest ih =>
    exact ⟨ih.1.cons _, ih.2.1.cons_cons _, List.perm_middle.trans (ih.2.2.cons _)⟩

/-- What is retrieved for a version is a tree of that version. -/
def OfOwnVersion (retrieve : String → Action RetrievalError Source) : Prop :=
  ∀ v w source w', execute (retrieve v) w = (.ok source, w') → source.version = v

/-- A version that is had is added to the trees. -/
theorem execute_retrieveAll_cons_ok (h : execute (retrieve v) w = (.ok source, w₁))
    (found : Retrieved) (versions : List String) :
    execute (retrieveAll retrieve found (v :: versions)) w =
      execute
        (retrieveAll retrieve { found with sources := found.sources ++ [source] } versions) w₁ := by
  rw [retrieveAll, execute_bind_ok (Action.execute_attempt _ w), h]

/-- A version that fails for a reason of its own is added to the failures and reported. -/
theorem execute_retrieveAll_cons_failed (h : execute (retrieve v) w = (.error e, w₁))
    (he : e.isOfVersion = true) (found : Retrieved) (versions : List String) :
    execute (retrieveAll retrieve found (v :: versions)) w =
      execute
      (retrieveAll retrieve { found with failures := found.failures ++ [⟨v, e.message⟩] } versions)
        { w₁ with journal := w₁.journal ++ [⟨.error, e.message⟩] } := by
  rw [retrieveAll, execute_bind_ok (Action.execute_attempt _ w), h]
  simp only [if_pos he]
  exact execute_bind_ok (Action.execute_report _ _ w₁)

/-- Any other failure ends the run over the versions. -/
theorem execute_retrieveAll_cons_error (h : execute (retrieve v) w = (.error e, w₁))
    (he : e.isOfVersion = false) (found : Retrieved) (versions : List String) :
    execute (retrieveAll retrieve found (v :: versions)) w = (.error e, w₁) := by
  rw [retrieveAll, execute_bind_ok (Action.execute_attempt _ w), h]
  simp only [he, Bool.false_eq_true, if_false]
  rfl

/-- What was dealt with is added to what was found, and the run goes on from there. -/
theorem Dealt.execute_retrieveAll (h : Dealt retrieve w versions sources failures w₁)
    (found : Retrieved) (more : List String) :
    execute (retrieveAll retrieve found (versions ++ more)) w =
      execute
        (retrieveAll retrieve ⟨found.sources ++ sources, found.failures ++ failures⟩ more) w₁ := by
  induction h generalizing found with
  | nil w => rw [List.nil_append, List.append_nil, List.append_nil]
  | had h rest ih =>
    rw [List.cons_append, execute_retrieveAll_cons_ok h, ih, List.append_assoc,
      List.singleton_append]
  | failed h he rest ih =>
    rw [List.cons_append, execute_retrieveAll_cons_failed h he, ih, List.append_assoc,
      List.singleton_append]

/-- A run deals with all versions, or with those before one that fails for a reason that concerns
all. -/
theorem retrieveAll_cases (hown : OfOwnVersion retrieve) (versions : List String) (w : Workspace) :
    (∃ sources failures w₁, Dealt retrieve w versions sources failures w₁) ∨
      ∃ earlier v later sources failures w₁ e w₂, versions = earlier ++ v :: later ∧
        Dealt retrieve w earlier sources failures w₁ ∧ execute (retrieve v) w₁ = (.error e, w₂) ∧
        e.isOfVersion = false := by
  induction versions generalizing w with
  | nil => exact .inl ⟨[], [], w, .nil w⟩
  | cons v versions ih =>
    rcases hrun : execute (retrieve v) w with ⟨e | ⟨version, path⟩, w₁⟩
    · cases he : e.isOfVersion with
      | false => exact .inr ⟨[], v, versions, [], [], w, e, w₁, rfl, .nil w, hrun, he⟩
      | true =>
        rcases ih { w₁ with journal := w₁.journal ++ [⟨.error, e.message⟩] } with
          ⟨sources, failures, w₂, hrest⟩ |
          ⟨earlier, v', later, sources, failures, w₂, e', w₃, rfl, hrest, herror⟩
        · exact .inl ⟨sources, _, w₂, .failed hrun he hrest⟩
        · exact .inr ⟨v :: earlier, v', later, sources, _, w₂, e', w₃, rfl,
            .failed hrun he hrest, herror⟩
    · obtain rfl : version = v := hown v w _ w₁ hrun
      rcases ih w₁ with ⟨sources, failures, w₂, hrest⟩ |
        ⟨earlier, v', later, sources, failures, w₂, e', w₃, rfl, hrest, herror⟩
      · exact .inl ⟨_, failures, w₂, .had hrun hrest⟩
      · exact .inr ⟨version :: earlier, v', later, _, failures, w₂, e', w₃, rfl,
          .had hrun hrest, herror⟩

/-- A run that is not given up has dealt with all versions. -/
theorem retrieveAll_ok {found : Retrieved} (hown : OfOwnVersion retrieve)
    (h : execute (retrieveAll retrieve default versions) w = (.ok found, w₁)) :
    Dealt retrieve w versions found.sources found.failures w₁ := by
  rcases retrieveAll_cases hown versions w with ⟨sources, failures, w₂, hdealt⟩ |
    ⟨earlier, v, later, sources, failures, w₂, e, w₃, rfl, hdealt, herror, he⟩
  · have hrun := hdealt.execute_retrieveAll default []
    rw [List.append_nil, h] at hrun
    cases hrun
    exact hdealt
  · rw [hdealt.execute_retrieveAll, execute_retrieveAll_cons_error herror he] at h
    cases h

/-- A run is given up exactly if a version fails at its turn for a reason that concerns all. -/
theorem retrieveAll_error_iff (hown : OfOwnVersion retrieve) :
    (execute (retrieveAll retrieve default versions) w).1 = .error e ↔
      e.isOfVersion = false ∧ ∃ earlier v later sources failures w₁,
        versions = earlier ++ v :: later ∧
        Dealt retrieve w earlier sources failures w₁ ∧ (execute (retrieve v) w₁).1 = .error e := by
  constructor
  · intro h
    rcases retrieveAll_cases hown versions w with ⟨sources, failures, w₂, hdealt⟩ |
      ⟨earlier, v, later, sources, failures, w₂, x, w₃, rfl, hdealt, herror, hx⟩
    · have hrun := hdealt.execute_retrieveAll default []
      rw [List.append_nil] at hrun
      rw [hrun] at h
      cases h
    · rw [hdealt.execute_retrieveAll, execute_retrieveAll_cons_error herror hx] at h
      obtain rfl := Except.error.inj h
      exact ⟨hx, earlier, v, later, sources, failures, w₂, rfl, hdealt, congrArg Prod.fst herror⟩
  · rintro ⟨he, earlier, v, later, sources, failures, w₁, rfl, hdealt, herror⟩
    rw [hdealt.execute_retrieveAll]
    rcases hrun : execute (retrieve v) w₁ with ⟨r, w₂⟩
    rw [hrun] at herror
    obtain rfl : r = .error e := herror
    rw [execute_retrieveAll_cons_error hrun he]

/-! ### Fetching one version -/

variable {run : Runner} {repository : String} {schemas clone path : Path} {version : String}

/-- Make a staging directory for a version. -/
def makeStaging (schemas : Path) (version : String) : Action FileError Path := do
  Action.ensureDirs schemas
  Action.makeTemporary schemas s!".v{version}-"

/-- Clone a version in its staging directory, move the clone to its place and discard the staging
directory. -/
def cloneStaged (run : Runner) (repository : String) (path staging : Path) (version : String) :
    Action RetrievalError Source := do
  Action.andFinally (cloneTo run version repository (staging.child "ocsf-schema") path)
    (Action.discard staging)
  Action.report .info s!"Downloaded schema {version} to {path.text}"
  pure ⟨version, path⟩

/-- The file system refuses a step that comes before the clone of a version: to look for its
directory, or, where that is not there, to make a staging directory. -/
def Obstructed (schemas : Path) (version : String) (w : Workspace) : Prop :=
  (∃ e, w.tree.isDirectory (versionDir schemas version) = .error e) ∨
    w.tree.isDirectory (versionDir schemas version) = .ok false ∧
      ∃ e, (execute (makeStaging schemas version) w).1 = .error e

theorem appends_makeStaging (schemas : Path) (version : String) :
    (makeStaging schemas version).Appends :=
  (Appends.ensureDirs schemas).bind fun _ ↦ .makeTemporary _ _

/-- What fails while a version is cloned concerns that version alone. -/
theorem isOfVersion_of_cloneTo
    (h : (execute (cloneTo run version repository clone path) w).1 = .error e) :
    e.isOfVersion = true := by
  unfold cloneTo at h
  rcases execute_bind_eq_error h with ⟨_, h⟩ | ⟨result, w₁, -, h⟩
  · cases h
  · cases result with
    | exit status printed => cases h; rfl
    | refused reason => cases h; rfl
    | done =>
      rcases execute_bind_eq_error h with ⟨_, h⟩ | ⟨isSchema, w₂, -, h⟩
      · obtain ⟨x, -, rfl⟩ := mapError_eq_error (congrArg Prod.fst h)
        rfl
      · cases isSchema with
        | false => cases h; rfl
        | true =>
          obtain ⟨x, -, rfl⟩ := mapError_eq_error h
          rfl

/-- Discarding a directory in the end does not change the outcome. -/
theorem execute_andFinally_discard {ε α : Type} (x : Action ε α) (staging : Path) (w : Workspace) :
    ∃ w', execute (Action.andFinally x (Action.discard staging)) w = ((execute x w).1, w') := by
  have hdiscard (w : Workspace) :
      ∃ w', execute (Action.discard staging : Action ε Unit) w = (.ok (), w') :=
    ⟨_, execute_bind_ok (Action.execute_attempt _ w)⟩
  obtain ⟨w', hw'⟩ := hdiscard (execute x w).2
  refine ⟨w', ?_⟩
  rw [Action.andFinally, execute_bind_ok (Action.execute_attempt _ w), execute_bind_ok hw']
  rfl

/-- Once there is a staging directory, a version fails for a reason of its own alone. -/
theorem isOfVersion_of_cloneStaged {staging : Path}
    (h : (execute (cloneStaged run repository path staging version) w).1 = .error e) :
    e.isOfVersion = true := by
  rcases execute_bind_eq_error h with ⟨w₁, h⟩ | ⟨⟨⟩, w₁, -, h⟩
  · obtain ⟨w₂, hclone⟩ := execute_andFinally_discard
      (cloneTo run version repository (staging.child "ocsf-schema") path) staging w
    rw [hclone] at h
    exact isOfVersion_of_cloneTo (congrArg Prod.fst h)
  · cases h

/-- What is cloned for a version stands at its path. -/
theorem source_of_cloneStaged {staging : Path}
    (h : (execute (cloneStaged run repository path staging version) w).1 = .ok source) :
    source = ⟨version, path⟩ := by
  obtain ⟨⟨⟩, w₂, -, h⟩ := execute_bind_eq_ok h
  obtain ⟨⟨⟩, w₃, -, h⟩ := execute_bind_eq_ok h
  exact (Except.ok.inj h).symm

/-- Whether a tree is present is whether its directory is there. -/
theorem execute_isPresent (path : Path) (w : Workspace) :
    execute (isPresent path) w = ((w.tree.isDirectory path).mapError .file, w) := rfl

/-- A version whose directory cannot be looked for fails with that error. -/
theorem execute_fetchSource_error (run : Runner) (repository : String) {x : FileError}
    (h : w.tree.isDirectory (versionDir schemas version) = .error x) :
    execute (fetchSource run repository schemas version) w = (.error (.file x), w) := by
  have hpresent := execute_isPresent (versionDir schemas version) w
  rw [h] at hpresent
  exact execute_bind_error hpresent

/-- A version whose tree is there is not fetched again. -/
theorem execute_fetchSource_present (run : Runner) (repository : String)
    (h : w.tree.isDirectory (versionDir schemas version) = .ok true) :
    ∃ j, execute (fetchSource run repository schemas version) w =
      (.ok ⟨version, versionDir schemas version⟩, { w with journal := j }) := by
  have hpresent := execute_isPresent (versionDir schemas version) w
  rw [h] at hpresent
  exact ⟨_, (execute_bind_ok hpresent).trans rfl⟩

/-- What is not there yet is cloned by way of a staging directory. -/
theorem execute_fetchSource_missing (run : Runner) (repository : String)
    (h : w.tree.isDirectory (versionDir schemas version) = .ok false) :
    ∃ j, execute (fetchSource run repository schemas version) w =
      execute (do
        let staging ← Action.mapError .file (makeStaging schemas version)
        cloneStaged run repository (versionDir schemas version) staging version) { w with journal :=
  j } := by
  have hpresent := execute_isPresent (versionDir schemas version) w
  rw [h] at hpresent
  exact ⟨_, (execute_bind_ok hpresent).trans (execute_bind_ok (Action.execute_report _ _ w))⟩

/-- What is fetched for a version is the tree in the directory of the version. -/
theorem source_of_fetchSource
    (h : execute (fetchSource run repository schemas version) w = (.ok source, w₁)) :
    source = ⟨version, versionDir schemas version⟩ := by
  rcases hfound : w.tree.isDirectory (versionDir schemas version) with x | _ | _
  · rw [execute_fetchSource_error run repository hfound] at h
    cases h
  · obtain ⟨j, hrun⟩ := execute_fetchSource_missing run repository hfound
    rw [hrun] at h
    obtain ⟨staging, w₂, -, h⟩ := execute_bind_eq_ok (congrArg Prod.fst h)
    exact source_of_cloneStaged h
  · obtain ⟨j, hrun⟩ := execute_fetchSource_present run repository hfound
    rw [hrun] at h
    cases h
    rfl

/-- Fetching a version fails for a reason that concerns all versions exactly if the file system
refuses a step before the clone. -/
theorem fetchSource_error_iff :
    (∃ e, (execute (fetchSource run repository schemas version) w).1 = .error e ∧
      e.isOfVersion = false) ↔ Obstructed schemas version w := by
  rw [Obstructed]
  rcases hfound : w.tree.isDirectory (versionDir schemas version) with x | _ | _
  · rw [execute_fetchSource_error run repository hfound]
    exact iff_of_true ⟨_, rfl, rfl⟩ (.inl ⟨x, rfl⟩)
  · obtain ⟨j, hrun⟩ := execute_fetchSource_missing run repository hfound
    have hstaging : (execute (makeStaging schemas version) { w with journal := j }).1 =
        (execute (makeStaging schemas version) w).1 :=
      ((appends_makeStaging schemas version).alike (Workspace.Alike.journal w j).symm).1
    rw [hrun, ← hstaging]
    constructor
    · rintro ⟨e, h, he⟩
      rcases execute_bind_eq_error h with ⟨w₁, h⟩ | ⟨staging, w₁, -, h⟩
      · obtain ⟨x, hx, -⟩ := mapError_eq_error (congrArg Prod.fst h)
        exact .inr ⟨rfl, x, hx⟩
      -- what comes after the staging directory fails for a reason of the version alone
      · rw [isOfVersion_of_cloneStaged h] at he
        cases he
    · rintro (⟨x, hx⟩ | ⟨-, x, hx⟩)
      · cases hx
      · rcases hmake : execute (makeStaging schemas version) { w with journal := j } with ⟨r, w₁⟩
        rw [hmake] at hx
        obtain rfl : r = .error x := hx
        have hmap : execute (Action.mapError RetrievalError.file (makeStaging schemas version))
            { w with journal := j } = (.error (.file x), w₁) := by
          rw [Action.execute_mapError, hmake]
          rfl
        rw [execute_bind_error hmap]
        exact ⟨_, rfl, rfl⟩
  · obtain ⟨j, hrun⟩ := execute_fetchSource_present run repository hfound
    rw [hrun]
    refine iff_of_false ?_ ?_
    · rintro ⟨e, h, -⟩
      cases h
    · rintro (⟨x, h⟩ | ⟨h, -⟩) <;> cases h

/-! ### Where nothing is refused -/

/-- The directory of the schema trees is there, below the working directory, and the version is a
plain name for which a staging directory can be made: it is not too long and nothing stands in its
place. -/
structure Clear (schemas : Path) (version : String) (w : Workspace) : Prop where
  read : schemas.IsRead
  relative : schemas.root = ""
  directory : w.tree.isDirectory schemas = .ok true
  noSlash : '/' ∉ version.toList
  noZero : '\x00' ∉ version.toList
  short : (temporaryName s!".v{version}-" (w.suffixes 0)).utf8ByteSize ≤ maxNameBytes
  free : w.tree.view (schemas.trail ++ [temporaryName s!".v{version}-" (w.suffixes 0)]) = none

/-- A name below the directory of the schema trees can be looked up. -/
theorem admits_of_name {t : FileTree} {name : String} {p : Path}
    (hschemas : t.isDirectory schemas = .ok true) (hroot : p.root = "")
    (hparts : p.parts = schemas.parts ++ [name]) (hdots : name ≠ "..")
    (hzero : '\x00' ∉ name.toList) (hshort : name.utf8ByteSize ≤ maxNameBytes) :
    t.Admits p ∧ p.trail = schemas.trail ++ [name] := by
  obtain ⟨hadmits, hdir⟩ := isDirectory_true hschemas
  have hextends : p.Extends schemas [name] :=
    ⟨hparts, fun hmem ↦ hdots (List.mem_singleton.1 hmem).symm⟩
  refine ⟨⟨⟨?_, .inl hroot, fun part hpart ↦ ?_⟩, fun q hq ↦ ?_⟩, hextends.trail_eq⟩
  · rw [hasZero, hparts, List.any_append]
    exact Bool.or_eq_false_iff.2 ⟨hadmits.usable.noZero, by simpa using hzero⟩
  · rcases List.mem_append.1 (hparts ▸ hpart) with hpart | hpart
    · exact hadmits.usable.fits part hpart
    · exact .inr (List.mem_singleton.1 hpart ▸ hshort)
  · rcases hextends.leadsThrough hq with hbase | ⟨s, hs, hne, rfl⟩
    · exact hadmits.view_of_visits hdir hbase
    · cases s with
      | nil => rwa [List.append_nil]
      | cons x s =>
        obtain ⟨rfl, hnil⟩ := List.cons_prefix_cons.1 hs
        exact absurd (congrArg (x :: ·) (List.prefix_nil.1 hnil)) hne

/-- A staging directory is named by the version and a suffix. -/
theorem toList_stagingName_version (version : String) (s : Suffix) :
    (temporaryName s!".v{version}-" s).toList =
      '.' :: 'v' :: (version.toList ++ '-' :: s.text.toList) := by
  have hstem : s!".v{version}-" = ".v" ++ version ++ "-" := rfl
  rw [toList_temporaryName, hstem, String.toList_append, String.toList_append, List.append_assoc,
    List.append_assoc]
  rfl

theorem toList_versionName (version : String) : s!"v{version}".toList = 'v' :: version.toList := by
  have happend : s!"v{version}" = "v" ++ version := rfl
  rw [happend, String.toList_append]
  rfl

/-- A character that neither the version nor a suffix has is not in the name of the staging
directory. -/
theorem not_mem_stagingName {c : Char} (hversion : c ∉ version.toList)
    (hword : c.isAlphanum = false) (hfixed : c ∉ ".v-_".toList) (s : Suffix) :
    c ∉ (temporaryName s!".v{version}-" s).toList := by
  have hparts : c ≠ '.' ∧ c ≠ 'v' ∧ c ≠ '-' ∧ c ≠ '_' := by simpa [not_or] using hfixed
  obtain ⟨hdot, hv, hdash, hunderscore⟩ := hparts
  have hsuffix := s.not_mem_text hword hunderscore
  rw [toList_stagingName_version]
  simp only [List.mem_cons, List.mem_append, hversion, hsuffix, hdot, hv, hdash, or_self,
    not_false_eq_true]

/-- The staging directory of a version without slashes goes by a plain name. -/
theorem isName_stagingName (hversion : '/' ∉ version.toList) (s : Suffix) :
    IsName (temporaryName s!".v{version}-" s) := by
  have hne {name : String} (hname : name.toList.length ≤ 1) :
      temporaryName s!".v{version}-" s ≠ name := fun heq ↦ by
    rw [← heq, toList_stagingName_version, List.length_cons, List.length_cons] at hname
    omega
  exact ⟨hne (by decide), hne (by decide), not_mem_stagingName hversion (by decide) (by decide) _⟩

/-- A version without a slash makes the name of a directory. -/
theorem isName_versionName (hversion : '/' ∉ version.toList) : IsName s!"v{version}" := by
  have htoList := toList_versionName version
  refine ⟨fun heq ↦ ?_, fun heq ↦ ?_, fun hmem ↦ ?_⟩
  · rw [heq] at htoList
    cases htoList
  · rw [heq] at htoList
    cases htoList
  · rw [htoList] at hmem
    exact (List.mem_cons.1 hmem).elim (by decide) hversion

namespace Clear

/-- Where the way is clear, the directory of the version can be made. -/
theorem admits_versionDir (h : Clear schemas version w) :
    w.tree.Admits (versionDir schemas version) := by
  have hsize : s!"v{version}".utf8ByteSize ≤
      (temporaryName s!".v{version}-" (w.suffixes 0)).utf8ByteSize := by
    have htemporary : temporaryName s!".v{version}-" (w.suffixes 0) =
      ".v" ++ version ++ "-" ++ (w.suffixes 0).text := rfl
    have hversion : s!"v{version}" = "v" ++ version := rfl
    have hfixed : "v".utf8ByteSize = 1 ∧ ".v".utf8ByteSize = 2 := by decide
    rw [htemporary, hversion]
    simp only [String.utf8ByteSize_append, hfixed]
    omega
  have htoList := toList_versionName version
  have hroot : (ofString s!"v{version}").root = "" := root_ofString_cons htoList (by decide)
  refine (admits_of_name h.directory ?_ ?_ (fun heq ↦ ?_) (fun hmem ↦ ?_) (hsize.trans h.short)).1
  · rw [versionDir, joinText, join, if_pos hroot]
    exact h.relative
  · rw [versionDir, parts_joinText hroot]
    exact congrArg (schemas.parts ++ ·) (isName_versionName h.noSlash).partsOf_eq
  · rw [heq] at htoList
    cases htoList
  · rw [htoList] at hmem
    exact (List.mem_cons.1 hmem).elim (by decide) h.noZero

/-- Where the way is clear, the staging directory of the version can be made below that of the
trees. -/
theorem admits_staging (h : Clear schemas version w) :
    w.tree.Admits (temporaryPath schemas s!".v{version}-" (w.suffixes 0)) ∧
      (temporaryPath schemas s!".v{version}-" (w.suffixes 0)).trail =
        schemas.trail ++ [temporaryName s!".v{version}-" (w.suffixes 0)] := by
  refine admits_of_name h.directory (h.read.root_beneath h.relative _) ?_ (fun heq ↦ ?_) ?_ h.short
  · rw [temporaryPath, h.read.parts_beneath]
    exact congrArg (schemas.parts ++ ·) (isName_stagingName h.noSlash _).partsOf_eq
  · have htoList := toList_stagingName_version version (w.suffixes 0)
    rw [heq] at htoList
    exact absurd (List.cons.inj (List.cons.inj htoList).2).1 (by decide)
  · exact not_mem_stagingName h.noZero (by decide) (by decide) _

/-- The file system refuses no step before the clone. -/
theorem not_obstructed (h : Clear schemas version w) : ¬ Obstructed schemas version w := by
  rintro (⟨x, hx⟩ | ⟨-, x, hx⟩)
  · rw [isDirectory, FileTree.look, h.admits_versionDir.locate_eq] at hx
    cases hx
  · obtain ⟨hadmits, htrail⟩ := h.admits_staging
    have hget :
        w.tree.get? (temporaryPath schemas s!".v{version}-" (w.suffixes 0)).trail = none := by
      rw [htrail]
      exact view_eq_none_iff.1 h.free
    rw [makeStaging, execute_bind_ok (execute_ensureDirs_of_dir h.directory),
      execute_makeTemporary, makeDir, hadmits.locate_eq, hget] at hx
    cases hx

end Clear

/-! ### Fetching several versions -/

/-- What is fetched for a version is a tree of that version. -/
theorem ofOwnVersion_fetchSource (run : Runner) (repository : String) (schemas : Path) :
    OfOwnVersion (fetchSource run repository schemas) := fun _ _ _ _ h ↦
  congrArg Source.version (source_of_fetchSource h)

/-- What comes of fetching versions. The run is given up exactly if the file system refuses a step
before the clone of some version at its turn, which it does not where the directory of the schema
trees is there and the version is a plain name. Otherwise each version is had or listed as a
failure, in the order of the versions, and none keeps those after it from their turns. -/
theorem fetchSources_settles (run : Runner) (repository : String)
    (schemas : Path) (versions : List String) (w : Workspace) :
    ((∃ e, (execute (fetchSources run repository schemas versions) w).1 = .error e) ↔
      ∃ earlier v later sources failures w₁, versions = earlier ++ v :: later ∧
        Dealt (fetchSource run repository schemas) w earlier sources failures w₁ ∧
        Obstructed schemas v w₁) ∧
    (∀ v w₁, Clear schemas v w₁ → ¬ Obstructed schemas v w₁) ∧
    ∀ found w', execute (fetchSources run repository schemas versions) w = (.ok found, w') →
      Dealt (fetchSource run repository schemas) w versions found.sources found.failures w' ∧
      (found.sources.map (·.version)).Sublist versions ∧
        (found.failures.map (·.version)).Sublist versions ∧
        (found.sources.map (·.version) ++ found.failures.map (·.version)).Perm versions := by
  have hown := ofOwnVersion_fetchSource run repository schemas
  refine ⟨⟨?_, ?_⟩, fun _ _ ↦ Clear.not_obstructed, fun found w' h ↦ ?_⟩
  · rintro ⟨e, h⟩
    obtain ⟨he, earlier, v, later, sources, failures, w₁, hversions, hdealt, herror⟩ :=
      (retrieveAll_error_iff hown).1 h
    exact ⟨earlier, v, later, sources, failures, w₁, hversions, hdealt,
      fetchSource_error_iff.1 ⟨e, herror, he⟩⟩
  · rintro ⟨earlier, v, later, sources, failures, w₁, hversions, hdealt, hobstructed⟩
    obtain ⟨e, herror, he⟩ : ∃ e, (execute (fetchSource run repository schemas v) w₁).1 = .error e ∧
      e.isOfVersion = false := fetchSource_error_iff.2 hobstructed
    exact ⟨e, (retrieveAll_error_iff hown).2
      ⟨he, earlier, v, later, sources, failures, w₁, hversions, hdealt, herror⟩⟩
  · have hdealt := retrieveAll_ok hown h
    exact ⟨hdealt, hdealt.parts_versions⟩

/-! ### A run over two versions -/

/-- A directory of schema trees in which 1.7.0 is there. -/
def partialTrees : FileTree := .dir [("schemas", .dir [("v1.7.0", .dir [])])]

/-- A version that cannot be cloned fails and leaves the trees as they were. -/
theorem fetchSource_partialTrees : ∃ w',
    execute (fetchSource (.unavailable "no route") repositoryUrl ⟨"", ["schemas"]⟩ "1.6.0")
      (.ofTree partialTrees) =
      (.error (.notPlaced "1.6.0" ⟨"", ["schemas", "v1.6.0"]⟩ "no route"), w') ∧
      w'.tree = partialTrees := by
  have hname : ∀ version, version = "1.6.0" →
      temporaryPath ⟨"", ["schemas"]⟩ s!".v{version}-" (.numbered 0) =
        ⟨"", ["schemas", ".v1.6.0-tmp0"]⟩ := by
    rintro _ rfl
    decide +kernel
  have hmissing : partialTrees.isDirectory (versionDir ⟨"", ["schemas"]⟩ "1.6.0") = .ok false := rfl
  obtain ⟨j, hrun⟩ := execute_fetchSource_missing (.unavailable "no route") repositoryUrl hmissing
    (w := .ofTree partialTrees)
  have hmake : execute (Action.mapError RetrievalError.file (makeStaging ⟨"", ["schemas"]⟩ "1.6.0"))
      { Workspace.ofTree partialTrees with journal := j } =
        (.ok ⟨"", ["schemas", ".v1.6.0-tmp0"]⟩,
          ⟨.dir [("schemas", .dir [("v1.7.0", .dir []), (".v1.6.0-tmp0", .dir [])])],
            fun n ↦ .numbered (n + 1), j, []⟩) := by
    rw [Action.execute_mapError, makeStaging, execute_bind_ok (execute_ensureDirs_of_dir rfl),
      execute_makeTemporary, Workspace.ofTree, hname _ rfl]
    rfl
  rw [hrun, execute_bind_ok hmake]
  exact ⟨_, rfl, rfl⟩

/-- A version that cannot be cloned is reported, and the one after it is had. -/
theorem fetchSources_settles_partialTrees : ∃ found w',
    execute
      (fetchSources (.unavailable "no route") repositoryUrl ⟨"", ["schemas"]⟩ ["1.6.0", "1.7.0"])
      (.ofTree partialTrees) = (.ok found, w') ∧
    Dealt (fetchSource (.unavailable "no route") repositoryUrl ⟨"", ["schemas"]⟩)
      (.ofTree partialTrees) ["1.6.0", "1.7.0"] found.sources found.failures w' ∧
    found.sources = [⟨"1.7.0", ⟨"", ["schemas", "v1.7.0"]⟩⟩] ∧
    found.failures.map (·.version) = ["1.6.0"] := by
  have hsettles := fetchSources_settles (.unavailable "no route") repositoryUrl ⟨"", ["schemas"]⟩
    ["1.6.0", "1.7.0"] (.ofTree partialTrees)
  obtain ⟨w₁, hfailed, htree⟩ := fetchSource_partialTrees
  have hpresent : w₁.tree.isDirectory (versionDir ⟨"", ["schemas"]⟩ "1.7.0") = .ok true := by
    rw [htree]
    rfl
  have hstep := execute_retrieveAll_cons_failed hfailed rfl default ["1.7.0"]
  obtain ⟨j, hhad⟩ := execute_fetchSource_present (.unavailable "no route") repositoryUrl hpresent
    (w := { w₁ with journal := w₁.journal ++ [_] })
  have hrun := hstep.trans (execute_retrieveAll_cons_ok hhad _ [])
  exact ⟨_, _, hrun, (hsettles.2.2 _ _ hrun).1, rfl, rfl⟩

/-- No staging directory can be made for a version whose name goes on in another directory, which
keeps the version after it from being had. -/
theorem fetchSources_partialTrees :
    (∃ e, (execute
      (fetchSources (.unavailable "no route") repositoryUrl ⟨"", ["schemas"]⟩ ["1/6", "1.7.0"])
      (.ofTree partialTrees)).1 = .error (.file e)) ∧
    ∃ found,
      (execute (fetchSources (.unavailable "no route") repositoryUrl ⟨"", ["schemas"]⟩ ["1.7.0"])
      (.ofTree partialTrees)).1 = .ok found := by
  have hname : ∀ version, version = "1/6" →
      temporaryPath ⟨"", ["schemas"]⟩ s!".v{version}-" (.numbered 0) =
        ⟨"", ["schemas", ".v1", "6-tmp0"]⟩ := by
    rintro _ rfl
    decide +kernel
  have hmissing : partialTrees.isDirectory (versionDir ⟨"", ["schemas"]⟩ "1/6") = .ok false := rfl
  obtain ⟨j, hrun⟩ := execute_fetchSource_missing (.unavailable "no route") repositoryUrl hmissing
    (w := .ofTree partialTrees)
  have hmake :
      ∃ e w₁, execute (Action.mapError RetrievalError.file (makeStaging ⟨"", ["schemas"]⟩ "1/6"))
      { Workspace.ofTree partialTrees with journal := j } = (.error (.file e), w₁) := by
    rw [Action.execute_mapError, makeStaging, execute_bind_ok (execute_ensureDirs_of_dir rfl),
      execute_makeTemporary, Workspace.ofTree, hname _ rfl]
    exact ⟨_, _, rfl⟩
  obtain ⟨e, w₁, hmake⟩ := hmake
  rw [execute_bind_error hmake] at hrun
  refine ⟨⟨e, ?_⟩, ?_⟩
  · rw [fetchSources, execute_retrieveAll_cons_error hrun rfl]
  · have hpresent :
        partialTrees.isDirectory (versionDir ⟨"", ["schemas"]⟩ "1.7.0") = .ok true := rfl
    obtain ⟨j, hhad⟩ := execute_fetchSource_present (.unavailable "no route") repositoryUrl hpresent
      (w := .ofTree partialTrees)
    rw [fetchSources, execute_retrieveAll_cons_ok hhad]
    exact ⟨_, rfl⟩

end EventSchema
