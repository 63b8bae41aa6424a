import EventSchema.Proofs.FileTree.Trails
import Mathlib.Logic.Function.Basic

/-!
# What operations do to a file tree

Each operation on a path is told by what stood at the trail of the path before it and by what it
changes in the view: one place gets a file or an empty directory, all at and below a place goes
(`FileTree.Cleared`), or all at and below a place stands at another one (`FileTree.Moved`). Whatever
does not lie there stays.
-/

namespace EventSchema

namespace FileTree

variable {t t' u new : FileTree} {p source target : Path} {r start finish : List String}
  {n text : String}

/-! ### Changes of the view -/

/-- Neither of two trails lies at or below the other. -/
structure Incomparable (p q : List String) : Prop where
  left : ¬ p <+: q
  right : ¬ q <+: p

theorem Incomparable.symm {p q : List String} (h : Incomparable p q) : Incomparable q p :=
  ⟨h.right, h.left⟩

theorem Incomparable.ne {p q : List String} (h : Incomparable p q) : p ≠ q := fun heq ↦
  h.left (heq ▸ List.prefix_rfl)

/-- Nothing below one of two incomparable trails lies at or below the other. -/
theorem Incomparable.not_prefix_append {p q : List String}
    (h : Incomparable p q) (s : List String) :
    ¬ p <+: q ++ s := fun hpre ↦
  (List.prefix_or_prefix_of_prefix hpre (List.prefix_append q s)).elim h.left h.right

/-- All that stands at and below a trail is taken away. -/
structure Cleared (trail : List String) (t t' : FileTree) : Prop where
  gone : ∀ q, trail <+: q → t'.view q = none
  kept : ∀ q, ¬ trail <+: q → t'.view q = t.view q

/-- All that stands at and below a trail is moved to another one. -/
structure Moved (start finish : List String) (t t' : FileTree) : Prop where
  arrived : ∀ q, t'.view (finish ++ q) = t.view (start ++ q)
  gone : ∀ q, ¬ finish <+: q → start <+: q → t'.view q = none
  kept : ∀ q, ¬ finish <+: q → ¬ start <+: q → t'.view q = t.view q

/-- Where no directory stood, putting something without entries changes one place. -/
theorem view_put_leaf (hr : t.view r = some .dir) (hbefore : t.view (r ++ [n]) ≠ some .dir)
    (hleaf : ∀ q, q ≠ [] → new.view q = none) :
    (put new (r ++ [n]) t).view = Function.update t.view (r ++ [n]) (some new.standing) := by
  funext q
  by_cases hq : r ++ [n] <+: q
  · obtain ⟨s, rfl⟩ := hq
    rw [view_put_append hr]
    by_cases hs : s = []
    · rw [hs, List.append_nil, Function.update_self, view_nil]
    · have hne : r ++ [n] ++ s ≠ r ++ [n] := fun heq ↦ hs (List.append_right_eq_self.1 heq)
      rw [hleaf s hs, Function.update_of_ne hne, view_append_eq_none hbefore hs]
  · have hne : q ≠ r ++ [n] := fun heq ↦ hq (heq ▸ List.prefix_rfl)
    rw [(isLocal_put new).view_elsewhere hq, Function.update_of_ne hne]

/-- A move depends on what is seen of the tree alone. -/
theorem Moved.of_view_eq {u : FileTree} (h : Moved start finish u t') (hview : u.view = t.view) :
    Moved start finish t t' where
  arrived q := by rw [← hview, h.arrived]
  gone := h.gone
  kept q hq hq' := by rw [← hview, h.kept q hq hq']

theorem view_emptyDir {q : List String} (hq : q ≠ []) : emptyDir.view q = none := by
  obtain ⟨n, q, rfl⟩ := List.exists_cons_of_ne_nil hq
  rfl

theorem view_file {q : List String} (hq : q ≠ []) : (FileTree.file text).view q = none := by
  obtain ⟨n, q, rfl⟩ := List.exists_cons_of_ne_nil hq
  rfl

/-- Removing what stands at a trail takes all below it away. -/
theorem cleared_remove (hr : r ≠ []) : Cleared r t (remove r t) where
  gone q hq := by
    obtain ⟨s, rfl⟩ := hq
    exact view_remove_append hr s
  kept _ hq := isLocal_remove.view_elsewhere hq

/-- Where a path leads, apart from the root, there is a directory for it. -/
theorem Admits.exists_concat (h : t.Admits p) (hp : p.trail ≠ []) :
    ∃ r n, p.trail = r ++ [n] ∧ t.view r = some .dir :=
  ⟨_, _, (List.dropLast_append_getLast hp).symm, h.view_dropLast hp⟩

/-- A path that is admitted is still admitted when something stands where nothing stood. -/
theorem Admits.update {u : FileTree} {s : Option Standing} (h : t.Admits p)
    (hnone : t.view r = none) (hview : u.view = Function.update t.view r s) : u.Admits p :=
  h.congr fun q hq ↦ by
    have hne : q ≠ r := fun heq ↦ by
      have hdir := h.dirs q hq
      rw [heq, hnone] at hdir
      cases hdir
    rw [hview, Function.update_of_ne hne]

/-! ### Looking -/

/-- Where a path exists, something stands at its trail. -/
theorem pathExists_true (h : t.pathExists p = .ok true) : t.Admits p ∧ t.view p.trail ≠ none := by
  rw [pathExists, look] at h
  cases hlocate : t.locate p with
  | error e => rw [hlocate] at h; cases e <;> cases h
  | ok x =>
    obtain ⟨hadmits, rfl⟩ := locate_ok hlocate
    rw [hlocate] at h
    refine ⟨hadmits, fun hnone ↦ ?_⟩
    rw [view_eq_none_iff] at hnone
    have hsome := Except.ok.inj h
    rw [hnone] at hsome
    cases hsome

/-- Whether a path exists is whether something stands at its trail. -/
theorem pathExists_eq (h : t.Admits p) : t.pathExists p = .ok (t.view p.trail).isSome := by
  rw [pathExists, look, h.locate_eq, view, Option.isSome_map]
  rfl

theorem isDirectory_true (h : t.isDirectory p = .ok true) :
    t.Admits p ∧ t.view p.trail = some .dir := by
  rw [isDirectory, look] at h
  cases hlocate : t.locate p with
  | error e => rw [hlocate] at h; cases e <;> cases h
  | ok x =>
    obtain ⟨hadmits, rfl⟩ := locate_ok hlocate
    rw [hlocate] at h
    refine ⟨hadmits, ?_⟩
    have hdir := Except.ok.inj h
    rw [view]
    cases hget : t.get? p.trail with
    | none => rw [hget] at hdir; cases hdir
    | some u =>
      cases u with
      | file text => rw [hget] at hdir; cases hdir
      | dir es => rfl

/-- A path is a directory exactly if one stands at its trail. -/
theorem isDirectory_iff : t.isDirectory p = .ok true ↔ t.Admits p ∧ t.view p.trail = some .dir := by
  refine ⟨isDirectory_true, fun ⟨hadmits, hdir⟩ ↦ ?_⟩
  obtain ⟨es, hes⟩ := view_eq_dir_iff.1 hdir
  rw [isDirectory, look, hadmits.locate_eq, hes]
  rfl

/-- Whether there is a directory depends on what stands where. -/
theorem isDirectory_congr (hview : u.view = t.view) : u.isDirectory p = .ok true ↔
    t.isDirectory p = .ok true := by
  rw [isDirectory_iff, isDirectory_iff, hview]
  exact and_congr_left fun _ ↦
    ⟨fun h ↦ h.congr fun q _ ↦ congrFun hview.symm q, fun h ↦ h.congr fun q _ ↦ congrFun hview q⟩

/-- A path that is a regular file has a file at its trail. -/
theorem isRegularFile_true (h : t.isRegularFile p = .ok true) :
    ∃ text, t.view p.trail = some (.file text) := by
  rw [isRegularFile, look] at h
  cases hlocate : t.locate p with
  | error e => rw [hlocate] at h; cases e <;> cases h
  | ok x =>
    obtain ⟨-, rfl⟩ := locate_ok hlocate
    rw [hlocate] at h
    have hfile := Except.ok.inj h
    cases hget : t.get? p.trail with
    | none => rw [hget] at hfile; cases hfile
    | some u =>
      cases u with
      | file text => exact ⟨text, view_eq_file_iff.2 hget⟩
      | dir es => rw [hget] at hfile; cases hfile

/-! ### Making and writing -/

/-- Where a directory is made nothing stood before, and an empty directory stands then. -/
theorem makeDir_ok (h : makeDir p t = .ok t') :
    t.Admits p ∧ t.view p.trail = none ∧ t'.get? p.trail = some emptyDir ∧
      t'.view = Function.update t.view p.trail (some .dir) := by
  rw [makeDir] at h
  cases hlocate : t.locate p with
  | error e => rw [hlocate] at h; cases h
  | ok x =>
    obtain ⟨hadmits, rfl⟩ := locate_ok hlocate
    rw [hlocate] at h
    cases hget : t.get? p.trail with
    | some u => rw [hget] at h; cases h
    | none =>
      rw [hget] at h
      have hnone : t.view p.trail = none := view_eq_none_iff.2 hget
      have hp : p.trail ≠ [] := fun hnil ↦ by
        rw [hnil, view_nil] at hnone
        cases hnone
      obtain ⟨r, n, htrail, hr⟩ := hadmits.exists_concat hp
      have ht' : t' = put emptyDir p.trail t := (Except.ok.inj h).symm
      rw [htrail] at hnone ht' ⊢
      rw [ht']
      exact ⟨hadmits, hnone, get?_put_self hr n,
        view_put_leaf hr (by simp [hnone]) fun _ hq ↦ view_emptyDir hq⟩

/-- A file is written where no directory stands. -/
theorem writeFile_ok (hp : p.trail ≠ []) (h : writeFile p text t = .ok t') :
    t.Admits p ∧ t.view p.trail ≠ some .dir ∧
      t'.view = Function.update t.view p.trail (some (.file text)) := by
  rw [writeFile] at h
  cases hlocate : t.locate p with
  | error e => rw [hlocate] at h; cases h
  | ok x =>
    obtain ⟨hadmits, rfl⟩ := locate_ok hlocate
    rw [hlocate] at h
    have hwritten (hno : t.view p.trail ≠ some .dir)
        (h : (.ok (put (.file text) p.trail t) : Except FileError FileTree) = .ok t') :
        t.view p.trail ≠ some .dir ∧
          t'.view = Function.update t.view p.trail (some (.file text)) := by
      obtain ⟨r, n, htrail, hr⟩ := hadmits.exists_concat hp
      rw [← Except.ok.inj h]
      rw [htrail] at hno ⊢
      exact ⟨hno, view_put_leaf hr hno fun _ hq ↦ view_file hq⟩
    cases hget : t.get? p.trail with
    | none =>
      rw [hget] at h
      exact ⟨hadmits, hwritten (by simp [view, hget]) h⟩
    | some u =>
      rw [hget] at h
      cases u with
      | dir es => cases h
      | file before => exact ⟨hadmits, hwritten (by simp [view, hget, standing]) h⟩

/-! ### Removing -/

/-- An empty directory can be removed. -/
theorem removeDir_eq (h : t.Admits p) (hget : t.get? p.trail = some emptyDir) :
    removeDir p t = .ok (remove p.trail t) := by
  rw [removeDir, h.locate_eq, hget]
  rfl

/-- A directory that was just made can be removed, and then all is as before. -/
theorem removeDir_makeDir {u : FileTree} (h : makeDir p t = .ok u) :
    ∃ v, removeDir p u = .ok v ∧ v.view = t.view := by
  obtain ⟨hadmits, hnone, hget, hview⟩ := makeDir_ok h
  have hp : p.trail ≠ [] := fun hnil ↦ by
    rw [hnil, view_nil] at hnone
    cases hnone
  refine ⟨_, removeDir_eq (hadmits.update hnone hview) hget, funext fun q ↦ ?_⟩
  by_cases hq : p.trail <+: q
  · rw [(cleared_remove hp).gone q hq, view_eq_none_below hnone hq]
  · have hne : q ≠ p.trail := fun heq ↦ hq (heq ▸ List.prefix_rfl)
    rw [(cleared_remove hp).kept q hq, hview, Function.update_of_ne hne]

/-- A directory can be removed with all that is in it. -/
theorem removeTree_eq (h : t.Admits p) (hdir : t.view p.trail = some .dir) :
    removeTree p t = .ok (remove p.trail t) := by
  obtain ⟨es, hes⟩ := view_eq_dir_iff.1 hdir
  rw [removeTree, h.locate_eq, hes]

/-- A file is not removed like a directory. -/
theorem removeTree_of_file (h : t.Admits p) (hfile : t.view p.trail = some (.file text)) :
    removeTree p t = .error ⟨.notDirectory, .removal p.text⟩ := by
  rw [removeTree, h.locate_eq, view_eq_file_iff.1 hfile]

/-- Removing fails where nothing stands. -/
theorem removeTree_of_none (hnone : t.view p.trail = none) : ∃ e, removeTree p t = .error e := by
  rw [removeTree]
  cases hlocate : t.locate p with
  | error e => exact ⟨_, rfl⟩
  | ok x =>
    obtain ⟨hadmits, rfl⟩ := locate_ok hlocate
    rw [view_eq_none_iff.1 hnone]
    exact ⟨_, rfl⟩

/-! ### Moving -/

/-- What is put elsewhere and removed where it stood is moved. -/
theorem moved_put_remove {u : FileTree} (hstart : start ≠ []) (hget : t.get? start = some u)
    (hr : t.view r = some .dir) (hnot : ¬ start <+: r ++ [n]) :
    Moved start (r ++ [n]) t (put u (r ++ [n]) (remove start t)) := by
  have hparent : (remove start t).view r = some .dir := by
    rw [(cleared_remove hstart).kept r fun hpre ↦ hnot (hpre.trans (List.prefix_append _ _)), hr]
  refine ⟨fun q ↦ ?_, fun q hq hpre ↦ ?_, fun q hq hpre ↦ ?_⟩
  · rw [view_put_append hparent, view_append_of_get? hget]
  · rw [(isLocal_put u).view_elsewhere hq, (cleared_remove hstart).gone q hpre]
  · rw [(isLocal_put u).view_elsewhere hq, (cleared_remove hstart).kept q hpre]

/-- Only an empty directory is replaced. -/
theorem eq_nil_of_replaceable {u : FileTree} {es : List (String × FileTree)}
    (h : replaceable u (.dir es) = .ok ()) : es = [] := by
  cases es with
  | nil => rfl
  | cons e es => cases u <;> cases h

/-- What is moved to another place stood at its start, and stands at its end then. -/
theorem move_ok (h : move source target t = .ok t') (hne : source.trail ≠ target.trail) :
    t.Admits source ∧ t.Admits target ∧ t.view source.trail ≠ none ∧
      ¬ source.trail <+: target.trail ∧ Moved source.trail target.trail t t' := by
  rw [move] at h
  dsimp only at h
  cases hsource : t.locate source with
  | error e => rw [hsource] at h; cases h
  | ok x =>
    obtain ⟨hstart, rfl⟩ := locate_ok hsource
    cases htarget : t.locate target with
    | error e => rw [hsource, htarget] at h; cases h
    | ok y =>
      obtain ⟨hfinish, rfl⟩ := locate_ok htarget
      rw [hsource, htarget] at h
      cases hget : t.get? source.trail with
      | none => rw [hget] at h; cases h
      | some u =>
        rw [hget] at h
        dsimp only at h
        rw [if_neg hne] at h
        split at h
        · cases h
        · next hbelow =>
          have hnot : ¬ source.trail <+: target.trail := fun hpre ↦
            hbelow (List.isPrefixOf_iff_prefix.2 hpre)
          have hsome : t.view source.trail ≠ none := by simp [view, hget]
          have hroot : source.trail ≠ [] := fun hnil ↦ hnot (hnil ▸ List.nil_prefix)
          split at h
          · cases h
          · next hreplace =>
            have htrail : target.trail ≠ [] := fun hnil ↦ by
              rw [hnil, get?_nil, Option.elim_some] at hreplace
              cases t with
              | file text => exact hsome (view_file hroot)
              | dir es =>
                rw [eq_nil_of_replaceable hreplace] at hsome
                exact hsome (view_emptyDir hroot)
            obtain ⟨r, n, hrn, hr⟩ := hfinish.exists_concat htrail
            refine ⟨hstart, hfinish, hsome, hnot, ?_⟩
            rw [← Except.ok.inj h, hrn]
            exact moved_put_remove hroot hget hr (hrn ▸ hnot)

/-- What stands somewhere can be moved to a place where nothing stands, unless that is below
itself. -/
theorem move_eq (hsource : t.Admits source) (htarget : t.Admits target)
    (hsome : t.view source.trail ≠ none) (hnone : t.view target.trail = none)
    (hnot : ¬ source.trail <+: target.trail) : ∃ t', move source target t = .ok t' := by
  obtain ⟨u, hu⟩ := Option.ne_none_iff_exists'.1 (mt view_eq_none_iff.2 hsome)
  have hne : source.trail ≠ target.trail := fun heq ↦ hnot (heq ▸ List.prefix_rfl)
  refine ⟨put u target.trail (remove source.trail t), ?_⟩
  rw [move]
  dsimp only
  rw [hsource.locate_eq, htarget.locate_eq, hu, view_eq_none_iff.1 hnone]
  dsimp only
  rw [if_neg hne, if_neg (mt List.isPrefixOf_iff_prefix.1 hnot)]
  rfl

end FileTree

end EventSchema
