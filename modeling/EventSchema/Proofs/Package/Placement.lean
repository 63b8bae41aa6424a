import EventSchema.Proofs.Package.Emission
import EventSchema.Proofs.Package.Writing

/-!
# Placing packages

A package takes its place with all its files, or all stays as it was (`Package.ends_placeFiles`).
That is so whatever stands at the place but for a file: then the package takes the place, the file
stands next to it under another name, and the placing fails (`Package.Stranded`).
-/

namespace EventSchema

namespace Package

open EventSchema.Action EventSchema.Path FileTree

variable {t u v : FileTree} {output staging : Path} {version text : String} {e : FileError}
  {place side stage q : List String}

/-! ### Two moves -/

/-- What stood at a place stands at its side now, and what stood at a stage stands at the place. -/
structure Swapped (stage place side : List String) (t u : FileTree) : Prop where
  arrived : ∀ q, u.view (place ++ q) = t.view (stage ++ q)
  aside : ∀ q, u.view (side ++ q) = t.view (place ++ q)
  gone : ∀ q, ¬ place <+: q → ¬ side <+: q → stage <+: q → u.view q = none
  kept : ∀ q, ¬ place <+: q → ¬ side <+: q → ¬ stage <+: q → u.view q = t.view q

theorem swapped_of_moved (haside : Moved place side t u) (harrived : Moved stage place u v)
    (hplace : Incomparable stage place) (hside : Incomparable side place)
    (hstage : Incomparable side stage) : Swapped stage place side t v where
  arrived q := by
    rw [harrived.arrived,
      haside.kept _ (hstage.not_prefix_append q) (hplace.symm.not_prefix_append q)]
  aside q := by
    rw [harrived.kept _ (hside.symm.not_prefix_append q) (hstage.symm.not_prefix_append q),
      haside.arrived]
  gone q hq _ hstage := harrived.gone q hq hstage
  kept q hq hside hstage := by
    rw [harrived.kept q hq hstage, haside.kept q hside hq]

/-- If what stood at the place is removed after the swap, the stage was moved to the place. -/
theorem Swapped.moved (h : Swapped stage place side t u) (hclear : Cleared side u v)
    (hfree : t.view side = none) (hside : Incomparable side place) : Moved stage place t v where
  arrived q := by rw [hclear.kept _ (hside.not_prefix_append q), h.arrived]
  gone q hq hstage := by
    by_cases hq' : side <+: q
    · exact hclear.gone q hq'
    · rw [hclear.kept q hq', h.gone q hq hq' hstage]
  kept q hq hstage := by
    by_cases hq' : side <+: q
    · rw [hclear.gone q hq', view_eq_none_below hfree hq']
    · rw [hclear.kept q hq', h.kept q hq hq' hstage]

/-- What lay in a staging directory took the place of something that stands at another place now. -/
structure Stranded (stage place side : List String) (t u : FileTree) : Prop where
  arrived : ∀ q, u.view (place ++ q) = t.view (stage ++ q)
  aside : u.view side = t.view place
  gone : ∀ q, ¬ place <+: q → stage <+: q → u.view q = none
  kept : ∀ q, ¬ place <+: q → ¬ stage <+: q → q ≠ side → u.view q = t.view q

theorem Stranded.of_view_eq (h : Stranded stage place side u v) (hview : u.view = t.view) :
    Stranded stage place side t v where
  arrived q := by rw [← hview, h.arrived]
  aside := by rw [← hview, h.aside]
  gone := h.gone
  kept q hq hstage hside := by rw [← hview, h.kept q hq hstage hside]

/-- A file that stood at the place stands at its side after the swap. -/
theorem Swapped.stranded (h : Swapped stage place side t u)
    (hfile : t.view place = some (.file text)) (hfree : t.view side = none)
    (hstage : Incomparable side stage) : Stranded stage place side t u := by
  have hbelow (s : List String) (hs : s ≠ []) : u.view (side ++ s) = none := by
    rw [h.aside, view_append_eq_none (by simp [hfile]) hs]
  refine ⟨h.arrived, ?_, fun q hq hq' ↦ ?_, fun q hq hq' hne ↦ ?_⟩
  · have haside := h.aside []
    rwa [List.append_nil, List.append_nil] at haside
  · by_cases hside : side <+: q
    · obtain ⟨s, rfl⟩ := hside
      exact absurd hq' (hstage.symm.not_prefix_append s)
    · exact h.gone q hq hside hq'
  · by_cases hside : side <+: q
    · obtain ⟨s, rfl⟩ := hside
      have hs : s ≠ [] := fun hnil ↦ hne (by rw [hnil, List.append_nil])
      rw [hbelow s hs, view_eq_none_below hfree (List.prefix_append side s)]
    · exact h.kept q hq hside hq'

/-! ### Replacing what stands at a place -/

/-- What becomes of a file system in which a directory is to take a place. -/
inductive Replacing (staging target : Path) (t : FileTree) : Except FileError Unit → FileTree → Prop
  /-- The directory took the place, and what stood there was no file. -/
  | done {u : FileTree} (hmoved : Moved staging.trail target.trail t u)
      (hfile : ∀ text, t.view target.trail ≠ some (.file text)) :
      Replacing staging target t (.ok ()) u
  /-- It failed, and all is as before. -/
  | refused {e : FileError} {u : FileTree} (hview : u.view = t.view) :
      Replacing staging target t (.error e) u
  /-- The directory took the place of a file, which was moved next to it and could not be
  removed. -/
  | stranded {u : FileTree} {text : String} (s : Suffix)
      (hfile : t.view target.trail = some (.file text))
      (hfree : t.view (oldOf target s).trail = none)
      (hmoved : Stranded staging.trail target.trail (oldOf target s).trail t u) :
      Replacing staging target t (.error ⟨.notDirectory, .removal (oldOf target s).text⟩) u

theorem Replacing.of_view_eq {target : Path} {r : Except FileError Unit}
    (h : Replacing staging target u r v) (hview : u.view = t.view) :
    Replacing staging target t r v := by
  cases h with
  | done hmoved hfile => exact .done (hmoved.of_view_eq hview) fun text ↦ hview ▸ hfile text
  | refused hsame => exact .refused (hsame.trans hview)
  | stranded s hfile hfree hmoved =>
    exact .stranded s (hview ▸ hfile) (hview ▸ hfree) (hmoved.of_view_eq hview)

/-- What stands at a place is moved aside, a directory takes the place, and what was moved is
removed. -/
def swap (staging target old : Path) : Action FileError Unit := do
  edit (move target old)
  edit (move staging target)
  edit (removeTree old)

/-- The name under which something is moved aside lies below neither the place nor the stage. -/
theorem incomparable_oldOf (hread : output.IsRead)
    (hapart : Incomparable staging.trail (placeOf output version).trail)
    (hdir : t.view staging.trail = some .dir)
    (hsome : t.view (placeOf output version).trail ≠ none) {s : Suffix}
    (hfree : t.view (oldOf (placeOf output version) s).trail = none) :
    Incomparable (oldOf (placeOf output version) s).trail (placeOf output version).trail ∧
      Incomparable (oldOf (placeOf output version) s).trail staging.trail := by
  have htrail := trail_oldOf hread version s
  have hplace : ¬ (oldOf (placeOf output version) s).trail <+: (placeOf output version).trail :=
    fun h ↦ hsome (view_eq_none_below hfree h)
  have hstage : ¬ (oldOf (placeOf output version) s).trail <+: staging.trail := fun h ↦ by
    rw [view_eq_none_below hfree h] at hdir
    cases hdir
  refine ⟨⟨hplace, fun h ↦ hplace ?_⟩, ⟨hstage, fun h ↦ ?_⟩⟩
  · have hlength : (oldOf (placeOf output version) s).trail.length ≤
        (placeOf output version).trail.length := by
      rw [htrail, List.length_append, List.length_dropLast, List.length_singleton]
      have hne := hapart.right
      have hpos : (placeOf output version).trail.length ≠ 0 := fun hzero ↦ by
        rw [List.eq_nil_of_length_eq_zero hzero] at hne
        exact hne List.nil_prefix
      omega
    rw [h.eq_of_length_le hlength]
  · rw [htrail] at h hstage
    rcases List.prefix_concat_iff.1 h with heq | h
    · exact hstage (heq ▸ List.prefix_rfl)
    · exact hapart.left (h.trans (List.dropLast_prefix _))

theorem ends_swap (hread : output.IsRead) (hapart : Apart staging (placeOf output version))
    (hadmits : t.Admits staging) (hdir : t.view staging.trail = some .dir)
    (hsome : t.view (placeOf output version).trail ≠ none) {s : Suffix}
    (hfree : t.view (oldOf (placeOf output version) s).trail = none) :
    Ends (swap staging (placeOf output version) (oldOf (placeOf output version) s)) t
      (Replacing staging (placeOf output version) t) := by
  obtain ⟨hside, hstage⟩ := incomparable_oldOf hread hapart.incomparable hdir hsome hfree
  have hway (q : List String) (h : (oldOf (placeOf output version) s).LeadsThrough q) :
      (placeOf output version).LeadsThrough q := leadsThrough_of_oldOf hread h
  generalize hold : oldOf (placeOf output version) s = old at *
  generalize hplace : placeOf output version = target at *
  -- nothing that stands on the way of a path lies at the side
  have hclear {q : List String} (hq : t.view q = some .dir) : ¬ old.trail <+: q := fun h ↦ by
    rw [view_eq_none_below hfree h] at hq
    cases hq
  refine Ends.bind (Q := fun r u ↦ match r with
      | .ok _ => t.Admits target ∧ t.Admits old ∧ Moved target.trail old.trail t u
      | .error _ => u = t) (.edit (fun u hu ↦ ?_) fun _ _ ↦
        rfl) ?_ fun e u hu ↦ .refused (by rw [hu])
  · obtain ⟨htarget, hadmits', -, -, hmoved⟩ := move_ok hu hside.symm.ne
    exact ⟨htarget, hadmits', hmoved⟩
  rintro - u ⟨htarget, holdway, haside⟩
  have hkept {q : List String} (hq : t.view q = some .dir) (hnot : ¬ target.trail <+: q) :
      u.view q = t.view q := haside.kept q (hclear hq) hnot
  have hstagingway : u.Admits staging := hadmits.congr fun q hq ↦
    hkept (hadmits.dirs q hq) (hapart.staging_way q hq)
  have htargetway : u.Admits target := htarget.congr fun q hq ↦
    hkept (htarget.dirs q hq) (hapart.target_way q hq).1
  have hstands : u.view staging.trail ≠ none := by
    rw [hkept hdir hapart.incomparable.right, hdir]
    exact Option.some_ne_none _
  have hnone : u.view target.trail = none := haside.gone _ hside.left List.prefix_rfl
  obtain ⟨v, hv⟩ := move_eq hstagingway htargetway hstands hnone hapart.incomparable.left
  obtain ⟨-, -, -, -, harrived⟩ := move_ok hv hapart.incomparable.ne
  refine (Ends.edit_eq hv).bind ?_ fun e v' h ↦ (by cases h.1)
  rintro - v' ⟨-, rfl⟩
  have hswapped := swapped_of_moved haside harrived hapart.incomparable hside hstage
  have holdway' : v'.Admits old := holdway.congr fun q hq ↦ by
    have hdir := holdway.dirs q hq
    obtain ⟨hnot, hnot'⟩ := hapart.target_way q (hway q hq)
    exact hswapped.kept q hnot (hclear hdir) hnot'
  have hatside := hswapped.aside []
  rw [List.append_nil, List.append_nil] at hatside
  cases hstanding : t.view target.trail with
  | none => exact absurd hstanding hsome
  | some standing =>
    rw [hstanding] at hatside
    cases standing with
    | dir =>
      have hne : old.trail ≠ [] := fun hnil ↦ hside.left (hnil ▸ List.nil_prefix)
      refine (Ends.edit_eq (removeTree_eq holdway' hatside)).mono ?_
      rintro r w ⟨rfl, rfl⟩
      exact .done (hswapped.moved (cleared_remove hne) hfree hside) fun text hfile ↦ by
        rw [hstanding] at hfile
        cases hfile
    | file text =>
      have hremove := removeTree_of_file holdway' hatside
      refine .edit (fun w hw ↦ ?_) fun e he ↦ ?_
      · rw [hremove] at hw
        cases hw
      · rw [hremove] at he
        obtain rfl := Except.error.inj he
        subst hold
        exact .stranded s hstanding hfree (hswapped.stranded hstanding hfree hstage)

/-- A name is found under which what stands at a place can be moved aside, or all is as before. -/
theorem ends_makeOld (target : Path) (t : FileTree) :
    Ends (makeTemporary target.parent s!".{target.name}-old-") t fun r u ↦
      (∃ s, r = .ok (oldOf target s) ∧ makeDir (oldOf target s) t = .ok u) ∨
        ∃ e, r = .error e ∧ u = t :=
  ends_makeTemporary (fun s _ hu ↦ .inl ⟨s, rfl, hu⟩) fun e ↦ .inr ⟨e, rfl, rfl⟩

/-- A directory takes a place, or all is as before, unless a file stands there. -/
theorem ends_replaceDir (hread : output.IsRead) (hapart : Apart staging (placeOf output version))
    (hadmits : t.Admits staging) (hdir : t.view staging.trail = some .dir) :
    Ends (replaceDir staging (placeOf output version)) t
      (Replacing staging (placeOf output version) t) := by
  refine Ends.bind (Q := fun r u ↦ r = t.pathExists (placeOf output version) ∧
    u = t) (.look ⟨rfl, rfl⟩) ?_ fun e u hu ↦ .refused (by rw [hu.2])
  rintro found u ⟨hfound, rfl⟩
  cases found with
  | false =>
    refine .edit (fun v hv ↦ ?_) fun e _ ↦ .refused rfl
    obtain ⟨-, htarget, -, -, hmoved⟩ := move_ok hv hapart.incomparable.ne
    refine .done hmoved fun text hfile ↦ ?_
    rw [pathExists_eq htarget, hfile] at hfound
    cases hfound
  | true =>
    obtain ⟨-, hsome⟩ := pathExists_true hfound.symm
    refine (ends_makeOld (placeOf output version) u).bind ?_ fun e v h ↦ ?_
    · rintro old v (⟨s, hold, hmake⟩ | ⟨e, he, -⟩)
      · rw [Except.ok.inj hold]
        obtain ⟨-, hfree, -, -⟩ := makeDir_ok hmake
        obtain ⟨w, hremove, hview⟩ := removeDir_makeDir hmake
        rw [← hview] at hdir hsome hfree
        have hway : w.Admits staging := hadmits.congr fun q _ ↦ by rw [hview]
        refine (Ends.edit_eq hremove).bind ?_ fun e w' h ↦ (by cases h.1)
        rintro - w' ⟨-, rfl⟩
        exact (ends_swap hread hapart hway hdir hsome hfree).mono fun r v h ↦ h.of_view_eq hview
      · cases he
    · obtain ⟨s, hr, -⟩ | ⟨e', -, hv⟩ := h
      · cases hr
      · exact .refused (by rw [hv])

/-! ### Placing a package -/

/-- What becomes of a file system in which the files of a package are to take its place. -/
inductive Placing (output : Path) (version : String) (files : Table String) (t : FileTree) :
    Except FileError Path → FileTree → Prop
  /-- The files stand at the place, and no file stood there before. -/
  | placed {u : FileTree} (hholds : Holds u (placeOf output version).trail files.entries)
      (hfile : ∀ text, t.view (placeOf output version).trail ≠ some (.file text))
      (hkept : ∀ q, ¬ (placeOf output version).trail <+: q → u.view q = t.view q) :
      Placing output version files t (.ok (placeOf output version)) u
  /-- It failed, and all is as before. -/
  | refused {e : FileError} {u : FileTree} (hview : u.view = t.view) :
      Placing output version files t (.error e) u
  /-- It failed, though the files stand at the place: the file that stood there was moved next to
  it. -/
  | stranded {u : FileTree} {text : String} (s : Suffix)
      (hholds : Holds u (placeOf output version).trail files.entries)
      (hfile : t.view (placeOf output version).trail = some (.file text))
      (hfree : t.view (oldOf (placeOf output version) s).trail = none)
      (haside : u.view (oldOf (placeOf output version) s).trail = some (.file text))
      (hkept : ∀ q, ¬ (placeOf output version).trail <+: q →
        q ≠ (oldOf (placeOf output version) s).trail → u.view q = t.view q) :
      Placing output version files t
        (.error ⟨.notDirectory, .removal (oldOf (placeOf output version) s).text⟩) u

/-- A new directory was made, in which nothing stands yet. -/
structure Staged (staging : Path) (t u : FileTree) : Prop where
  free : t.view staging.trail = none
  empty : u.get? staging.trail = some emptyDir
  view_eq : u.view = Function.update t.view staging.trail (some .dir)
  admits : u.Admits staging

theorem staged_of_makeDir (h : makeDir staging t = .ok u) : Staged staging t u := by
  obtain ⟨hway, hfree, hempty, hview⟩ := makeDir_ok h
  exact ⟨hfree, hempty, hview, hway.update hfree hview⟩

namespace Staged

variable {files : Table String} {w : FileTree}

theorem view_none (h : Staged staging t u) (hq : staging.trail <+: q) : t.view q = none :=
  view_eq_none_below h.free hq

theorem view_dir (h : Staged staging t u) (hconfined : Confined staging.trail u v) :
    v.view staging.trail = some .dir :=
  hconfined.dirs _ (by rw [h.view_eq, Function.update_self])

/-- Outside of the new directory all is as before while only things below it change. -/
theorem outside (h : Staged staging t u) (hconfined : Confined staging.trail u v)
    (hq : ¬ staging.trail <+: q) : v.view q = t.view q := by
  have hne : q ≠ staging.trail := fun heq ↦ hq (heq ▸ List.prefix_rfl)
  rw [hconfined.outside q hq, h.view_eq, Function.update_of_ne hne]

/-- The new directory can be discarded with all that is below it, and then all is as before. -/
theorem ends_discard {Q : Except FileError Unit → FileTree → Prop} (h : Staged staging t u)
    (hconfined : Confined staging.trail u v) (hQ : ∀ w : FileTree, w.view = t.view → Q (.ok ()) w) :
    Ends (discard staging) v Q := by
  have hremove := removeTree_eq (hconfined.admits h.admits) (h.view_dir hconfined)
  have hne : staging.trail ≠ [] := fun hnil ↦ by
    have hfree := h.free
    rw [hnil, view_nil] at hfree
    cases hfree
  refine Action.ends_discard (fun w hw ↦ hQ w (funext fun q ↦ ?_)) fun e he ↦ ?_
  · obtain rfl := Except.ok.inj (hremove.symm.trans hw)
    by_cases hq : staging.trail <+: q
    · rw [(cleared_remove hne).gone q hq, h.view_none hq]
    · rw [(cleared_remove hne).kept q hq, h.outside hconfined hq]
  · rw [hremove] at he
    cases he

/-- The files stand at the place if the new directory was moved there when it held them. -/
theorem placed (h : Staged staging t u) (hconfined : Confined staging.trail u w)
    (hholds : Holds w staging.trail files.entries)
    (hapart : Incomparable staging.trail (placeOf output version).trail)
    (hmoved : Moved staging.trail (placeOf output version).trail w v)
    (hfile : ∀ text, w.view (placeOf output version).trail ≠ some (.file text)) :
    Placing output version files t (.ok (placeOf output version)) v := by
  refine .placed (hholds.of_view hmoved.arrived) (fun text ↦ ?_) fun q hq ↦ ?_
  · rw [← h.outside hconfined hapart.left]
    exact hfile text
  · by_cases hstage : staging.trail <+: q
    · rw [hmoved.gone q hq hstage, h.view_none hstage]
    · rw [hmoved.kept q hq hstage, h.outside hconfined hstage]

theorem stranded {s : Suffix} (h : Staged staging t u) (hconfined : Confined staging.trail u w)
    (hholds : Holds w staging.trail files.entries)
    (hapart : Incomparable staging.trail (placeOf output version).trail)
    (hfile : w.view (placeOf output version).trail = some (.file text))
    (hfree : w.view (oldOf (placeOf output version) s).trail = none)
    (hmoved : Stranded staging.trail (placeOf output version).trail
      (oldOf (placeOf output version) s).trail w v) :
    Placing output version files t
      (.error ⟨.notDirectory, .removal (oldOf (placeOf output version) s).text⟩) v := by
  have hplace : t.view (placeOf output version).trail = some (.file text) := by
    rw [← h.outside hconfined hapart.left, hfile]
  refine .stranded s (hholds.of_view hmoved.arrived) hplace ?_ ?_ fun q hq hne ↦ ?_
  · by_cases hstage : staging.trail <+: (oldOf (placeOf output version) s).trail
    · exact h.view_none hstage
    · rw [← h.outside hconfined hstage, hfree]
  · rw [hmoved.aside, hfile]
  · by_cases hstage : staging.trail <+: q
    · rw [hmoved.gone q hq hstage, h.view_none hstage]
    · rw [hmoved.kept q hq hstage hne, h.outside hconfined hstage]

/-- Files are written to the new directory, which then takes its place; if that fails, it is
discarded. -/
theorem ends_onFailure (h : Staged staging t u) (hread : output.IsRead)
    (hapart : Apart staging (placeOf output version)) (hlaid : Laid files.entries) :
    Ends (Action.onFailure
      (do writeFiles staging files; replaceDir staging (placeOf output version))
      (discard staging)) u
      fun r v ↦ Placing output version files t (r.map fun _ ↦ placeOf output version) v := by
  have hwritten : Ends (do writeFiles staging files; replaceDir staging (placeOf output version)) u
      fun r v ↦ (∃ e, r = .error e ∧ Confined staging.trail u v) ∨
        ∃ w, Confined staging.trail u w ∧ Holds w staging.trail files.entries ∧
          Replacing staging (placeOf output version) w r v := by
    refine (ends_writeFiles h.admits h.empty hlaid).bind ?_ fun e v h ↦ .inl ⟨e, rfl, h.1⟩
    rintro _ w ⟨hconfined, hholds⟩
    exact (ends_replaceDir hread hapart (hconfined.admits h.admits) (h.view_dir hconfined)).mono
      fun r v hr ↦ .inr ⟨w, hconfined, hholds rfl, hr⟩
  refine hwritten.onFailure (fun _ v hv ↦ ?_) fun e v hv ↦ ?_
  · obtain ⟨e, he, -⟩ | ⟨w, hconfined, hholds, hreplaced⟩ := hv
    · cases he
    · cases hreplaced with
      | done hmoved hfile => exact h.placed hconfined hholds hapart.incomparable hmoved hfile
  · have hrefused (hconfined : Confined staging.trail u v) :=
      h.ends_discard (Q := fun r w ↦ r = .ok () ∧ Placing output version files t (.error e) w)
        hconfined fun w hw ↦ ⟨rfl, .refused hw⟩
    obtain ⟨e, -, hconfined⟩ | ⟨w, hconfined, hholds, hreplaced⟩ := hv
    · exact hrefused hconfined
    · cases hreplaced with
      | refused hsame =>
        exact hrefused ⟨fun q hq ↦ by rw [hsame, hconfined.outside q hq],
          fun q hq ↦ by rw [hsame, hconfined.dirs q hq]⟩
      | stranded s hfile hfree hmoved =>
        -- the staging directory is not there any more
        obtain ⟨e', he'⟩ := removeTree_of_none
          (hmoved.gone _ hapart.incomparable.right List.prefix_rfl)
        refine Action.ends_discard (fun w hw ↦ ?_) fun _ _ ↦ ⟨rfl, ?_⟩
        · rw [he'] at hw
          cases hw
        · exact h.stranded hconfined hholds hapart.incomparable hfile hfree hmoved

end Staged

/-- A staging directory is made, or all is as before. -/
theorem ends_makeStaging (output : Path) (version : String) (t : FileTree) :
    Ends (makeTemporary output s!".{Identifier.versionSlug version}-staging-") t fun r u ↦
      (∃ s, r = .ok (stagingOf output version s) ∧ makeDir (stagingOf output version s) t = .ok u) ∨
        ∃ e, r = .error e ∧ u = t :=
  ends_makeTemporary (fun s _ hu ↦ .inl ⟨s, rfl, hu⟩) fun e ↦ .inr ⟨e, rfl, rfl⟩

/-- The files of a package take its place, or all is as before, unless a file stands at the
place. -/
theorem ends_placeFiles {files : Table String} (hread : output.IsRead) (hadmits : t.Admits output)
    (hdir : t.view output.trail = some .dir) (hlaid : Laid files.entries)
    (hthrough : ¬ output.LeadsThrough (placeOf output version).trail) :
    Ends (placeFiles output (Identifier.versionSlug version) files) t
      (Placing output version files t) := by
  refine (ends_makeStaging output version t).bind ?_ fun e u h ↦ ?_
  · rintro staging u (⟨s, hstaging, hmake⟩ | ⟨e, he, -⟩)
    · have hstaged := staged_of_makeDir hmake
      have hapart : Apart (stagingOf output version s) (placeOf output version) :=
        apart_stagingOf hread hthrough fun q hq hpre ↦ by
          have hvisited := hadmits.view_of_visits hdir hq
          rw [hstaged.view_none hpre] at hvisited
          cases hvisited
      rw [Except.ok.inj hstaging]
      exact (hstaged.ends_onFailure hread hapart hlaid).bind (fun _ v h ↦ .pure h) fun e v h ↦ h
    · cases he
  · obtain ⟨s, hr, -⟩ | ⟨e', -, hu⟩ := h
    · cases hr
    · exact .refused (by rw [hu])

end Package

end EventSchema
