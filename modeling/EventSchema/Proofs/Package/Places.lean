import EventSchema.Package.Placement
import EventSchema.Proofs.Directories

/-!
# Places of packages

The place of a package lies below the directory of the packages. The names of its staging directory
and of the directory that is moved aside start with a dot, which no name of a package holds. So
neither the place nor the staging directory lies below the other (`Place.apart`), and the way to
either does not go through the other.
-/

namespace EventSchema

open EventSchema.Path FileTree

/-! ### Names of packages -/

namespace Identifier

/-- The name of a package is made up of a letter, what the version holds but for dots, underscores
and zeros. -/
theorem forall_mem_versionSlug (version : String) {P : Char → Prop}
    (hversion : ∀ c ∈ version.toList, c ≠ '.' → P c) (hunderscore : P '_') (hzero : P '0') :
    ∃ cs, (versionSlug version).toList = 'v' :: cs ∧ ∀ c ∈ cs, P c := by
  have hpiece {piece : List Char} (h : piece ∈ version.toList.splitOn '.') : ∀ c ∈ piece, P c :=
    fun c hc ↦ hversion c ((of_mem_splitOn h).2.subset hc) fun hdot ↦
      (of_mem_splitOn h).1 (hdot ▸ hc)
  rw [versionSlug]
  split
  · next major minor rest hsplit =>
    have hmajor : ∀ c ∈ major, P c := hpiece (by rw [hsplit]; exact List.mem_cons_self)
    have hminor : ∀ c ∈ minor, P c :=
      hpiece (by rw [hsplit]; exact List.mem_cons_of_mem _ List.mem_cons_self)
    refine ⟨_, String.toList_ofList,
      List.forall_mem_append.2 ⟨hmajor, List.forall_mem_cons.2 ⟨hunderscore, ?_⟩⟩⟩
    split
    · exact hminor
    · exact fun c hc ↦ hminor c ((List.takeWhile_prefix _).subset hc)
  · refine ⟨_, String.toList_ofList, List.forall_mem_append.2 ⟨?_, ?_⟩⟩
    · obtain ⟨first, rest, hsplit⟩ :=
        List.exists_cons_of_ne_nil (List.splitOn_ne_nil '.' version.toList)
      rw [hsplit]
      exact hpiece (by rw [hsplit]; exact List.mem_cons_self)
    · exact List.forall_mem_cons.2 ⟨hunderscore, List.forall_mem_singleton.2 hzero⟩

/-- The name of a version begins with a letter and has no dot. -/
theorem toList_versionSlug (version : String) :
    ∃ cs, (versionSlug version).toList = 'v' :: cs ∧ '.' ∉ cs := by
  obtain ⟨cs, hslug, hcs⟩ := forall_mem_versionSlug version (P := (· ≠ '.')) (fun _ _ h ↦ h)
    (by decide) (by decide)
  exact ⟨cs, hslug, fun hdot ↦ hcs '.' hdot rfl⟩

/-- The name of the package of a version without a slash is a name. -/
theorem isName_versionSlug {version : String} (h : '/' ∉ version.toList) :
    IsName (versionSlug version) := by
  obtain ⟨cs, hslug, hcs⟩ := forall_mem_versionSlug version (P := (· ≠ '/'))
    (fun c hc _ heq ↦ h (heq ▸ hc)) (by decide) (by decide)
  refine ⟨fun heq ↦ ?_, fun heq ↦ ?_, fun hmem ↦ ?_⟩
  · rw [heq] at hslug
    cases hslug
  · rw [heq] at hslug
    exact absurd (List.cons.inj hslug).1 (by decide)
  · rw [hslug] at hmem
    exact (List.mem_cons.1 hmem).elim (by decide) fun hmem ↦ hcs '/' hmem rfl

end Identifier

namespace Package

open EventSchema.Action

variable {output target : Path} {version : String} {q : List String}

/-- The names that lead to the place of a package from the directory of the packages. -/
def placeParts (slug : String) : List String := (ofString slug).parts

/-- The names that lead to the staging directory with a suffix. -/
def stagingParts (slug : String) (s : Suffix) : List String :=
  (ofString (temporaryName s!".{slug}-staging-" s)).parts

/-- The name of the directory with a suffix to which what stood at a place is moved. -/
def oldName (target : Path) (s : Suffix) : String := temporaryName s!".{target.name}-old-" s

/-- No part of a place holds a dot. -/
theorem dot_not_mem_placeParts {part : String}
    (h : part ∈ placeParts (Identifier.versionSlug version)) :
    '.' ∉ part.toList := fun hmem ↦ by
  obtain ⟨cs, hslug, hdot⟩ := Identifier.toList_versionSlug version
  have hchar := (isName_of_mem_partsOf h).2.subset hmem
  rw [hslug] at hchar
  exact (List.mem_cons.1 hchar).elim (by decide) hdot

/-- A place starts with a name that starts with a letter. -/
theorem placeParts_eq (version : String) :
    ∃ more rest,
    placeParts (Identifier.versionSlug version) = String.ofList ('v' :: more) :: rest := by
  obtain ⟨cs, hslug, -⟩ := Identifier.toList_versionSlug version
  have hread : placeParts (Identifier.versionSlug version) = partsOf (['v'] ++ cs) :=
    congrArg partsOf hslug
  rw [hread]
  exact exists_partsOf_cons (by decide) (fun cs ↦ by simp) cs

/-- A staging directory is named by the version and a suffix. -/
theorem toList_stagingName (slug : String) (s : Suffix) :
    (temporaryName s!".{slug}-staging-" s).toList =
      '.' :: (slug.toList ++ ("-staging-".toList ++ s.text.toList)) := by
  have hstem : s!".{slug}-staging-" = "." ++ slug ++ "-staging-" := rfl
  rw [toList_temporaryName, hstem, String.toList_append, String.toList_append, List.append_assoc,
    List.append_assoc]
  rfl

/-- A staging directory starts with a name that starts with a dot. -/
theorem stagingParts_eq (version : String) (s : Suffix) :
    ∃ more rest, stagingParts (Identifier.versionSlug version) s =
      String.ofList ('.' :: 'v' :: more) :: rest := by
  obtain ⟨cs, hslug, -⟩ := Identifier.toList_versionSlug version
  have hread : stagingParts (Identifier.versionSlug version) s =
      partsOf (['.', 'v'] ++ (cs ++ ("-staging-".toList ++ s.text.toList))) := by
    rw [stagingParts, parts_ofString, toList_stagingName, hslug]
    rfl
  rw [hread]
  exact exists_partsOf_cons (by decide) (fun cs ↦ by simp) _

/-- The way to a staging directory does not go up. -/
theorem dots_not_mem_stagingParts (version : String) (s : Suffix) :
    ".." ∉ stagingParts (Identifier.versionSlug version) s := by
  refine dots_not_mem_parts ?_
  obtain ⟨cs, hslug, hdot⟩ := Identifier.toList_versionSlug version
  have hsuffix : s.text.toList.count '.' = 0 :=
    List.count_eq_zero_of_not_mem (s.not_mem_text (by decide) (by decide))
  have hcs : cs.count '.' = 0 := List.count_eq_zero_of_not_mem hdot
  rw [toList_stagingName, hslug, List.count_cons, List.count_append, List.count_cons,
    List.count_append, hsuffix, hcs]
  decide

/-- A directory that is moved aside is named by its own name and a suffix. -/
theorem toList_oldName (target : Path) (s : Suffix) : (oldName target s).toList =
    '.' :: (target.name.toList ++ ("-old-".toList ++ s.text.toList)) := by
  have hstem : s!".{target.name}-old-" = "." ++ target.name ++ "-old-" := rfl
  rw [oldName, toList_temporaryName, hstem, String.toList_append, String.toList_append,
    List.append_assoc, List.append_assoc]
  rfl

theorem oldName_ne {name : String} (hname : name.toList.length ≤ 2) (target : Path) (s : Suffix) :
    oldName target s ≠ name :=
  fun h ↦ by
    have hlength := congrArg (fun name : String ↦ name.toList.length) h
    simp [toList_oldName] at hlength hname
    omega

/-- A directory that is moved aside has the name of a file. -/
theorem isName_oldName (hname : IsName target.name) (s : Suffix) : IsName (oldName target s) := by
  refine ⟨oldName_ne (by decide) target s, oldName_ne (by decide) target s, fun h ↦ ?_⟩
  have hsuffix := s.not_mem_text (c := '/') (by decide) (by decide)
  have hfixed : '/' ∉ "-old-".toList := by decide
  rw [toList_oldName] at h
  simp only [List.mem_cons, List.mem_append, hname.noSlash, hsuffix, hfixed, or_false] at h
  exact absurd h (by decide)

/-! ### Paths of packages -/

theorem placeParts_ne_nil (version : String) :
    placeParts (Identifier.versionSlug version) ≠ [] := by
  obtain ⟨more, rest, h⟩ := placeParts_eq version
  rw [h]
  exact List.cons_ne_nil _ _

/-- The place of a package and its staging directory do not lie one below the other. -/
theorem placeParts_incomparable (version : String) (s : Suffix) :
    ¬ placeParts (Identifier.versionSlug version) <+: stagingParts
      (Identifier.versionSlug version) s ∧
      ¬ stagingParts (Identifier.versionSlug version) s <+: placeParts
        (Identifier.versionSlug version) := by
  obtain ⟨more, rest, hplace⟩ := placeParts_eq version
  obtain ⟨more', rest', hstaging⟩ := stagingParts_eq version s
  have hne : String.ofList ('v' :: more) ≠ String.ofList ('.' :: 'v' :: more') := fun h ↦ by
    rw [String.ofList_inj] at h
    cases h
  rw [hplace, hstaging]
  exact ⟨fun h ↦ hne (List.cons_prefix_cons.1 h).1, fun h ↦ hne (List.cons_prefix_cons.1 h).1.symm⟩

/-- The place of the package of a version. -/
def placeOf (output : Path) (version : String) : Path :=
  output.joinText (Identifier.versionSlug version)

/-- The staging directory with a suffix for the package of a version. -/
def stagingOf (output : Path) (version : String) (s : Suffix) : Path :=
  temporaryPath output s!".{Identifier.versionSlug version}-staging-" s

/-- The directory with a suffix to which what stood at a place is moved. -/
def oldOf (target : Path) (s : Suffix) : Path :=
  temporaryPath target.parent s!".{target.name}-old-" s

/-- The place of a package extends the directory of the packages. -/
theorem extends_placeOf (output : Path) (version : String) :
    (placeOf output version).Extends output (placeParts (Identifier.versionSlug version)) where
  parts := by
    obtain ⟨cs, hslug, -⟩ := Identifier.toList_versionSlug version
    exact parts_joinText (root_ofString_cons hslug (by decide)) output
  plain := fun hmem ↦ dot_not_mem_placeParts hmem (by decide)

/-- The places of versions without slashes lie apart unless they have one name. -/
theorem incomparable_placeOf {u v : String} (hu : '/' ∉ u.toList) (hv : '/' ∉ v.toList)
    (hne : Identifier.versionSlug u ≠ Identifier.versionSlug v) :
    Incomparable (placeOf output u).trail (placeOf output v).trail := by
  have htrail {version : String} (h : '/' ∉ version.toList) :
      (placeOf output version).trail = output.trail ++ [Identifier.versionSlug version] := by
    have hparts : placeParts (Identifier.versionSlug version) = [Identifier.versionSlug version] :=
      (Identifier.isName_versionSlug h).partsOf_eq
    rw [(extends_placeOf output version).trail_eq, hparts]
  rw [htrail hu, htrail hv]
  refine ⟨fun h ↦ hne ?_, fun h ↦ hne ?_⟩
  · exact (List.cons_prefix_cons.1 ((List.prefix_append_right_inj _).1 h)).1
  · exact (List.cons_prefix_cons.1 ((List.prefix_append_right_inj _).1 h)).1.symm

/-- The staging directory extends the directory of the packages. -/
theorem extends_stagingOf (houtput : output.IsRead) (version : String) (s : Suffix) :
    (stagingOf output version s).Extends output (stagingParts (Identifier.versionSlug version) s) :=
  ⟨houtput.parts_beneath _, dots_not_mem_stagingParts version s⟩

/-- Neither of two paths leads through the other, and neither lies below the other. -/
structure Apart (staging target : Path) : Prop where
  incomparable : Incomparable staging.trail target.trail
  staging_way : ∀ q, staging.LeadsThrough q → ¬ target.trail <+: q
  target_way : ∀ q, target.LeadsThrough q → ¬ target.trail <+: q ∧ ¬ staging.trail <+: q

/-- The way to the directory of the packages does not come to the place of a package. -/
theorem not_prefix_of_visits (hthrough : ¬ output.LeadsThrough (placeOf output version).trail)
    (hq : output.Visits q) : ¬ (placeOf output version).trail <+: q := fun hpre ↦ by
  have htrail := (extends_placeOf output version).trail_eq
  have hne : (placeOf output version).trail ≠ [] := fun hnil ↦ by
    rw [htrail] at hnil
    exact placeParts_ne_nil version (List.append_eq_nil_iff.1 hnil).2
  rcases visits_iff.1 (hq.of_below hne hpre) with h | h
  · exact hthrough h
  · rw [htrail, List.append_right_eq_self] at h
    exact placeParts_ne_nil version h

/-- A path without double dots only leads to what it lies in. -/
theorem not_leadsThrough_of_plain (h : ".." ∉ output.parts) (version : String) :
    ¬ output.LeadsThrough (placeOf output version).trail := by
  rintro ⟨parts, hparts, -, hwalk⟩
  have hbase : output.trail = output.parts := walk_of_plain h []
  have htrail : (placeOf output version).trail = parts := by
    rw [← hwalk, walk_of_plain (fun hmem ↦ h (hparts.subset hmem)), List.nil_append]
  rw [(extends_placeOf output version).trail_eq, hbase] at htrail
  have hlength := hparts.length_le
  rw [← htrail, List.length_append] at hlength
  have hpos := List.length_pos_of_ne_nil (placeParts_ne_nil version)
  omega

/-- A staging directory and the place of its package are apart, unless the directory of the packages
is reached through the place, or through the staging directory. -/
theorem apart_stagingOf (houtput : output.IsRead)
    (hthrough : ¬ output.LeadsThrough (placeOf output version).trail) {s : Suffix}
    (hfree : ∀ q, output.Visits q → ¬ (stagingOf output version s).trail <+: q) :
    Apart (stagingOf output version s) (placeOf output version) := by
  have hplace := extends_placeOf output version
  have hstaging := extends_stagingOf houtput version s
  obtain ⟨hnot, hnot'⟩ := placeParts_incomparable version s
  have hvisits {q : List String} (hq : output.Visits q) := not_prefix_of_visits hthrough hq
  refine ⟨⟨fun h ↦ ?_, fun h ↦ ?_⟩, fun q hq h ↦ ?_, fun q hq ↦ ⟨fun h ↦ ?_, fun h ↦ ?_⟩⟩
  · rw [hplace.trail_eq, hstaging.trail_eq, List.prefix_append_right_inj] at h
    exact hnot' h
  · rw [hplace.trail_eq, hstaging.trail_eq, List.prefix_append_right_inj] at h
    exact hnot h
  · rcases hstaging.leadsThrough hq with hbase | ⟨s, hs, -, rfl⟩
    · exact hvisits hbase h
    · rw [hplace.trail_eq, List.prefix_append_right_inj] at h
      exact hnot (h.trans hs)
  · rcases hplace.leadsThrough hq with hbase | ⟨s, hs, hne, rfl⟩
    · exact hvisits hbase h
    · rw [hplace.trail_eq, List.prefix_append_right_inj] at h
      exact hne (hs.eq_of_length_le h.length_le)
  · rcases hplace.leadsThrough hq with hbase | ⟨s, hs, -, rfl⟩
    · exact hfree q hbase h
    · rw [hstaging.trail_eq, List.prefix_append_right_inj] at h
      exact hnot' (h.trans hs)

theorem isRead_placeOf (houtput : output.IsRead) (version : String) :
    (placeOf output version).IsRead :=
  houtput.joinText _

theorem placeOf_parts_ne_nil (output : Path) (version : String) :
    (placeOf output version).parts ≠ [] :=
  fun hnil ↦ by
    rw [(extends_placeOf output version).parts] at hnil
    exact placeParts_ne_nil version (List.append_eq_nil_iff.1 hnil).2

/-- What is moved aside stays next to where it stood. -/
theorem parts_oldOf (hread : target.IsRead) (hne : target.parts ≠ []) (s : Suffix) :
    (oldOf target s).parts = target.parts.dropLast ++ [oldName target s] := by
  have hlast : target.name ∈ target.parts := by
    rw [Path.name, List.getLastD_eq_getLast?, List.getLast?_eq_some_getLast hne]
    exact List.getLast_mem _
  have hname : IsName (oldName target s) := isName_oldName (hread.2 _ hlast) s
  have hpath : oldOf target s = .ofString (target.parent.beneath (oldName target s)) := rfl
  have hold : (ofString (oldName target s)).parts = [oldName target s] := hname.partsOf_eq
  rw [hpath, hread.parent.parts_beneath, hold, parent]

/-- What stood at a place is moved next to it, under a name that starts with a dot. -/
theorem trail_oldOf (houtput : output.IsRead) (version : String) (s : Suffix) :
    (oldOf (placeOf output version) s).trail =
      (placeOf output version).trail.dropLast ++ [oldName (placeOf output version) s] := by
  have hplace := extends_placeOf output version
  have hparent := (hplace.parent (placeParts_ne_nil version)).trail_eq
  have hold : oldName (placeOf output version) s ≠ ".." := oldName_ne (by decide) _ s
  have hadvance (trail : List String) : advance trail (oldName (placeOf output version) s) =
      trail ++ [oldName (placeOf output version) s] := if_neg hold
  rw [trail, parent] at hparent
  rw [trail, parts_oldOf (isRead_placeOf houtput version) (placeOf_parts_ne_nil output version),
    walk_concat, hadvance, hplace.trail_eq,
    List.dropLast_append_of_ne_nil (placeParts_ne_nil version), hparent]

/-- The way to what is moved aside is part of the way to the place. -/
theorem leadsThrough_of_oldOf (houtput : output.IsRead) {s : Suffix}
    (h : (oldOf (placeOf output version) s).LeadsThrough q) :
    (placeOf output version).LeadsThrough q := by
  have hparts := List.dropLast_append_getLast (placeOf_parts_ne_nil output version)
  rw [leadsThrough_concat
    (parts_oldOf (isRead_placeOf houtput version) (placeOf_parts_ne_nil output version) s)] at h
  rwa [leadsThrough_concat hparts.symm]

end Package

end EventSchema
