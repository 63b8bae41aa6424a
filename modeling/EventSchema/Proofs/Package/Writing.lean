import EventSchema.Proofs.Package.Places

/-!
# Writing files below a directory

A directory holds files if they and the directories for them are all that stands below it
(`Package.Holds`). Writing one more file keeps that (`Holds.written`), so a directory that was empty
holds all files that were written. Whatever becomes of it, nothing changes outside of the directory,
and no directory goes (`Package.Confined`).
-/

namespace EventSchema

open EventSchema.Path FileTree

variable {t u v : FileTree} {root : Path} {trail q s : List String} {key text : String}
  {files more : List (String × String)}

namespace Package

open EventSchema.Action

/-- Nothing changes outside of a directory, and every directory stays. -/
structure Confined (trail : List String) (t u : FileTree) : Prop where
  outside : ∀ q, ¬ trail <+: q → u.view q = t.view q
  dirs : ∀ q, t.view q = some .dir → u.view q = some .dir

theorem Confined.refl (trail : List String) (t : FileTree) : Confined trail t t :=
  ⟨fun _ _ ↦ rfl, fun _ h ↦ h⟩

theorem Confined.trans (h : Confined trail t u) (h' : Confined trail u v) : Confined trail t v :=
  ⟨fun q hq ↦ (h'.outside q hq).trans (h.outside q hq), fun q hq ↦ h'.dirs q (h.dirs q hq)⟩

theorem Confined.admits {p : Path} (h : Confined trail t u) (hp : t.Admits p) : u.Admits p :=
  ⟨hp.usable, fun q hq ↦ h.dirs q (hp.dirs q hq)⟩

/-- A directory holds files: below it stand the files with their texts, the directories for them,
and nothing else. -/
structure Holds (t : FileTree) (trail : List String) (files : List (String × String)) : Prop where
  file_iff : ∀ q text, t.view (trail ++ q) = some (.file text) ↔
    ∃ key, (key, text) ∈ files ∧ (ofString key).parts = q
  dir_iff : ∀ q, t.view (trail ++ q) = some .dir ↔
    q = [] ∨ ∃ f ∈ files, q <+: (ofString f.1).parts ∧ q ≠ (ofString f.1).parts

/-- An empty directory holds no files. -/
theorem holds_nil (h : t.get? trail = some emptyDir) : Holds t trail [] where
  file_iff q text := by
    rw [view_append_of_get? h]
    cases q with
    | nil => simp [emptyDir, standing]
    | cons n q => simp [view_emptyDir]
  dir_iff q := by
    rw [view_append_of_get? h]
    cases q with
    | nil => simp [emptyDir, standing]
    | cons n q => simp [view_emptyDir]

theorem Holds.congr (h : Holds t trail files) (hfiles : ∀ f, f ∈ files ↔ f ∈ more) :
    Holds t trail more where
  file_iff q text := by simp only [h.file_iff, hfiles]
  dir_iff q := by simp only [h.dir_iff, hfiles]

theorem Holds.of_view {other : List String} (h : Holds t trail files)
    (hview : ∀ q, u.view (other ++ q) = t.view (trail ++ q)) : Holds u other files where
  file_iff q text := by rw [hview, h.file_iff]
  dir_iff q := by rw [hview, h.dir_iff]

/-! ### One file -/

/-- A file is written below a directory: it stands there then, in the directories on its way. -/
structure Written (trail : List String) (key text : String) (t u : FileTree) : Prop where
  file : u.view (trail ++ (ofString key).parts) = some (.file text)
  free : t.view (trail ++ (ofString key).parts) ≠ some .dir
  dirs : ∀ q, q <+: (ofString key).parts → q ≠ (ofString key).parts →
    u.view (trail ++ q) = some .dir ∧ ∀ text, t.view (trail ++ q) ≠ some (.file text)
  kept : ∀ q, ¬ q <+: (ofString key).parts → u.view (trail ++ q) = t.view (trail ++ q)

/-- A directory that holds files holds one more when that is written, if it has a path of its
own. -/
theorem Holds.written (h : Holds t trail files) (hw : Written trail key text t u)
    (hproper : (ofString key).parts ≠ [])
    (hown : ∀ f ∈ files, (ofString f.1).parts ≠ (ofString key).parts) :
    Holds u trail (files ++ [(key, text)]) := by
  refine ⟨fun q text' ↦ ?_, fun q ↦ ?_⟩
  · have hmem : (∃ key', (key', text') ∈ files ++ [(key, text)] ∧ (ofString key').parts = q) ↔
        (∃ key', (key', text') ∈ files ∧ (ofString key').parts = q) ∨
          text' = text ∧ (ofString key).parts = q := by
      simp only [List.mem_append, List.mem_singleton, Prod.mk.injEq]
      constructor
      · rintro ⟨key', hkey | ⟨rfl, rfl⟩, hq⟩
        · exact .inl ⟨key', hkey, hq⟩
        · exact .inr ⟨rfl, hq⟩
      · rintro (⟨key', hkey, hq⟩ | ⟨rfl, hq⟩)
        · exact ⟨key', .inl hkey, hq⟩
        · exact ⟨key, .inr ⟨rfl, rfl⟩, hq⟩
    rw [hmem]
    by_cases hq : q = (ofString key).parts
    · rw [hq, hw.file]
      constructor
      · intro heq
        exact .inr ⟨(Standing.file.inj (Option.some.inj heq)).symm, rfl⟩
      · rintro (⟨key', hkey, hparts⟩ | ⟨rfl, -⟩)
        · exact absurd hparts (hown (key', text') hkey)
        · rfl
    · have hnew : ¬ (text' = text ∧ (ofString key).parts = q) := fun hnew ↦ hq hnew.2.symm
      rw [or_iff_left hnew, ← h.file_iff]
      by_cases hpre : q <+: (ofString key).parts
      · obtain ⟨hdir, hfile⟩ := hw.dirs q hpre hq
        rw [hdir]
        exact ⟨fun heq ↦ (by cases heq), fun heq ↦ absurd heq (hfile text')⟩
      · rw [hw.kept q hpre]
  · simp only [List.mem_append, List.mem_singleton, or_and_right, exists_or, exists_eq_left]
    by_cases hq : q = (ofString key).parts
    · have hbefore := mt (h.dir_iff q).2 (hq ▸ hw.free)
      rw [hq, hw.file]
      refine ⟨fun heq ↦ (by cases heq), ?_⟩
      rintro (hnil | hold | ⟨-, hne⟩)
      · exact absurd hnil hproper
      · exact absurd (.inr (hq ▸ hold)) hbefore
      · exact absurd rfl hne
    · by_cases hpre : q <+: (ofString key).parts
      · rw [(hw.dirs q hpre hq).1]
        exact iff_of_true rfl (.inr (.inr ⟨hpre, hq⟩))
      · have hnew : ¬ (q <+: (ofString key).parts ∧ q ≠ (ofString key).parts) :=
          fun hnew ↦ hpre hnew.1
        rw [hw.kept q hpre, h.dir_iff, or_iff_left hnew]

/-- A file is written with the directories that it lies in. -/
def writeOne (root : Path) (f : String × String) : Action FileError Unit := do
  let path := root.joinText f.1
  ensureDirs path.parent
  edit (FileTree.writeFile path f.2)

/-- A file is written below a directory, or there are new directories below it only. -/
theorem ends_writeOne (hadmits : t.Admits root) (hdir : t.view root.trail = some .dir)
    (hkey : (root.joinText key).Extends root (ofString key).parts)
    (hproper : (ofString key).parts ≠ []) :
    Ends (writeOne root (key, text)) t fun r u ↦
      Confined root.trail t u ∧ (r = .ok () → Written root.trail key text t u) := by
  have hparent := hkey.parent hproper
  have hvisits {q : List String} (hq : root.Visits q) : t.view q = some .dir :=
    hadmits.view_of_visits hdir hq
  -- new directories lie below the root, on the way of the file
  have hgrown {v : FileTree} (h : Grown (root.joinText key).parent t v) (q : List String) :
      v.view q = t.view q ∨ t.view q = none ∧ v.view q = some .dir ∧
        ∃ s, s <+: (ofString key).parts.dropLast ∧ q = root.trail ++ s := by
    refine (h q).imp_right fun ⟨hnone, hnew, hq⟩ ↦
      ⟨hnone, hnew, (hparent.visits hq).resolve_left fun hq ↦ ?_⟩
    rw [hvisits hq] at hnone
    cases hnone
  have hconfined {v : FileTree} (h : Grown (root.joinText key).parent t v) :
      Confined root.trail t v :=
    ⟨fun q hq ↦ (hgrown h q).resolve_right fun ⟨_, _, s, _, heq⟩ ↦
      hq (heq ▸ List.prefix_append _ _), fun q hq ↦ h.view_dir hq⟩
  refine (ends_ensureDirs (root.joinText key).parent t).bind (fun _ v hv ↦ ?_)
    fun e v hv ↦ ⟨hconfined hv.1, fun h ↦ by cases h⟩
  have htrail := hkey.trail_eq
  have hne : (root.joinText key).trail ≠ [] := fun hnil ↦ by
    rw [htrail] at hnil
    exact hproper (List.append_eq_nil_iff.1 hnil).2
  refine .edit (fun u hu ↦ ?_) fun e _ ↦ ⟨hconfined hv.1, fun h ↦ by cases h⟩
  obtain ⟨hpath, hfree, hview⟩ := writeFile_ok hne hu
  rw [htrail] at hfree hview
  have hother {q : List String} (hq : q ≠ (ofString key).parts) :
      u.view (root.trail ++ q) = v.view (root.trail ++ q) := by
    rw [hview, Function.update_of_ne fun heq ↦ hq (List.append_cancel_left heq)]
  refine ⟨(hconfined hv.1).trans ⟨fun q hq ↦ ?_, fun q hq ↦ ?_⟩,
    fun _ ↦ ⟨?_, ?_, fun q hq hqne ↦ ?_, fun q hq ↦ ?_⟩⟩
  · have hne : q ≠ root.trail ++ (ofString key).parts := fun heq ↦ hq ⟨_, heq.symm⟩
    rw [hview, Function.update_of_ne hne]
  · have hne : q ≠ root.trail ++ (ofString key).parts := fun heq ↦ by
      rw [heq] at hq
      exact hfree hq
    rw [hview, Function.update_of_ne hne, hq]
  · rw [hview, Function.update_self]
  · exact fun heq ↦ hfree (hv.1.view_dir heq)
  · have hway : v.view (root.trail ++ q) = some .dir :=
      hpath.dirs _ (hkey.leadsThrough_append hq hqne)
    refine ⟨(hother hqne).trans hway, fun text hfile ↦ ?_⟩
    rcases hgrown hv.1 (root.trail ++ q) with heq | ⟨hnone, -, -⟩
    · rw [heq, hfile] at hway
      cases hway
    · rw [hfile] at hnone
      cases hnone
  · rw [hother fun heq ↦ hq (heq ▸ List.prefix_rfl)]
    refine (hgrown hv.1 _).resolve_right fun ⟨_, _, s, hs, heq⟩ ↦ hq ?_
    rw [List.append_cancel_left heq]
    exact hs.trans (List.dropLast_prefix _)

/-! ### All files -/

/-- Files whose paths do not leave the directory that they are written to, each with a path of its
own. -/
structure Laid (files : List (String × String)) : Prop where
  relative : ∀ f ∈ files, (ofString f.1).root = "" ∧ (ofString f.1).parts ≠ []
  inside : ∀ f ∈ files, ".." ∉ (ofString f.1).parts
  distinct : (files.map fun f ↦ (ofString f.1).parts).Nodup

theorem Laid.perm (h : Laid files) (hperm : more.Perm files) : Laid more :=
  ⟨fun f hf ↦ h.relative f (hperm.mem_iff.1 hf), fun f hf ↦ h.inside f (hperm.mem_iff.1 hf),
    (hperm.map _).nodup_iff.2 h.distinct⟩

theorem ends_writeAll (hadmits : t.Admits root) (hdir : t.view root.trail = some .dir)
    (hholds : Holds t root.trail files) (hlaid : Laid (files ++ more)) :
    Ends (more.forM (writeOne root)) t fun r u ↦
      Confined root.trail t u ∧ (r = .ok () → Holds u root.trail (files ++ more)) := by
  induction more generalizing t files with
  | nil => exact .pure ⟨.refl _ t, fun _ ↦ by rwa [List.append_nil]⟩
  | cons f more ih =>
    obtain ⟨key, text⟩ := f
    have hmem : (key, text) ∈ files ++ (key, text) :: more := by simp
    obtain ⟨hroot, hproper⟩ := hlaid.relative (key, text) hmem
    have hkey : (root.joinText key).Extends root (ofString key).parts :=
      ⟨parts_joinText hroot root, hlaid.inside (key, text) hmem⟩
    have hown : ∀ f ∈ files, (ofString f.1).parts ≠ (ofString key).parts := fun f hf ↦ by
      have hdistinct := hlaid.distinct
      rw [List.map_append, List.map_cons, List.nodup_append] at hdistinct
      exact hdistinct.2.2 (ofString f.1).parts (List.mem_map.2 ⟨f, hf, rfl⟩) (ofString key).parts
        List.mem_cons_self
    have happend : files ++ (key, text) :: more = files ++ [(key, text)] ++ more := by simp
    refine (ends_writeOne hadmits hdir hkey hproper).bind (fun _ u ⟨hconfined, hwritten⟩ ↦ ?_)
      fun e u h ↦ ⟨h.1, fun h ↦ by cases h⟩
    rw [happend] at hlaid ⊢
    refine (ih (hconfined.admits hadmits) (hconfined.dirs _ hdir)
      (hholds.written (hwritten rfl) hproper hown) hlaid).mono fun r v h ↦
      ⟨hconfined.trans h.1, h.2⟩

/-- Files are written to an empty directory, or there is only something new below it. -/
theorem ends_writeFiles {files : Table String} (hadmits : t.Admits root)
    (hempty : t.get? root.trail = some emptyDir) (hlaid : Laid files.entries) :
    Ends (writeFiles root files) t fun r u ↦
      Confined root.trail t u ∧ (r = .ok () → Holds u root.trail files.entries) := by
  have hperm : files.sorted.entries.Perm files.entries := List.mergeSort_perm _ _
  have hdir : t.view root.trail = some .dir := view_eq_dir_iff.2 ⟨_, hempty⟩
  refine (ends_writeAll hadmits hdir (holds_nil hempty) (hlaid.perm hperm)).mono
    fun r u ⟨hconfined, hholds⟩ ↦ ⟨hconfined, fun h ↦ (hholds h).congr fun f ↦ hperm.mem_iff⟩

end Package

end EventSchema
