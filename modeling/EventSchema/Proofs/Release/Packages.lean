import EventSchema.Proofs.Package.Outcomes
import EventSchema.Proofs.Release.Compilation
import EventSchema.Proofs.Release.Turns

/-!
# Packages that stay at their places

The package of a version stands at its place once the version is compiled (`holds_of_compile`). It
stays there while other versions are compiled, each of which leaves it alone unless its own package
comes to stand at, above or below the place (`holds_afterVersion`, `holds_afterVersions`): an
emission that is refused changes nothing that was there, and one that is stranded does so where a
file stood, which is neither at nor above a package, nor below one, since the names of the files of
packages hold a dot and those of places do not. The alias of the latest version and the root of all
packages stand next to the packages and so leave them alone, too (`Holds.aliasing`).
-/

namespace EventSchema

open EventSchema.Action EventSchema.Path FileTree Package

variable {run : Runner} {output : Path} {source : Source} {sources : List Source} {v u : String}
  {w w' : Workspace} {t t' : FileTree} {files : Table String} {entries : List (String × String)}
  {apart : Bool}

/-! ### Packages that stay -/

namespace Package

/-- A path that ends like the file of a module has a name with a dot. -/
theorem exists_dot_mem_partsOf (cs : List Char) :
    ∃ part ∈ partsOf (cs ++ ".py".toList), '.' ∈ part.toList := by
  by_cases hslash : '/' ∈ cs
  · obtain ⟨as, bs, hcs⟩ := List.append_of_mem hslash
    obtain ⟨part, hpart, hdot⟩ := exists_dot_mem_partsOf bs
    refine ⟨part, ?_, hdot⟩
    rw [hcs, List.append_assoc, List.cons_append, partsOf_append_slash]
    exact List.mem_append_right _ hpart
  · have htoList : (String.ofList (cs ++ ".py".toList)).toList = cs ++ ".py".toList :=
      String.toList_ofList
    have hname : IsName (String.ofList (cs ++ ".py".toList)) := by
      have hne (s : String) (hs : s.toList.length ≤ 1) :
          String.ofList (cs ++ ".py".toList) ≠ s := fun heq ↦ by
        have hlength : ".py".toList.length = 3 := rfl
        rw [← heq, htoList, List.length_append, hlength] at hs
        omega
      refine ⟨hne _ (by decide), hne _ (by decide), ?_⟩
      rw [htoList, List.mem_append, not_or]
      exact ⟨hslash, by decide⟩
    rw [← htoList, hname.partsOf_eq]
    refine ⟨_, List.mem_singleton_self _, ?_⟩
    rw [htoList]
    exact List.mem_append_right _ (by decide)
termination_by cs.length
decreasing_by
  rw [hcs, List.length_append, List.length_cons]
  omega

/-- On the path of each file of a package there is a name with a dot, which the places of packages
do not have. -/
theorem exists_dot_of_filesOf {p : Plan} (h : filesOf p = .ok files) :
    ∀ f ∈ files.entries, ∃ part ∈ (ofString f.1).parts, '.' ∈ part.toList := fun f hf ↦ by
  rcases path_of_filesOf h (Table.get?_eq_some_iff.2 hf) with hpath | ⟨folder, module, -, hpath⟩
  · rw [hpath]
    exact exists_dot_mem_partsOf "__init__".toList
  · rw [hpath, parts_ofString, toList_modulePath, ← List.cons_append, ← List.append_assoc]
    exact exists_dot_mem_partsOf _

variable {schema : Schema} {deferral : Deferral} {r : Except EmitError Path}

/-- The file that was moved next to the place of one package does not stand at or below the place of
another. -/
theorem not_prefix_oldOf (hread : output.IsRead) (s : Suffix)
    (hplace : ¬ (placeOf output v).trail <+: (placeOf output u).trail) :
    ¬ (placeOf output v).trail <+: (oldOf (placeOf output u) s).trail := fun hpre ↦ by
  rw [trail_oldOf hread] at hpre
  rcases List.prefix_concat_iff.1 hpre with heq | hpre
  · -- the last name of a place has no dot
    rw [(extends_placeOf output v).trail_eq] at heq
    have hlast := congrArg List.getLast? heq
    rw [List.getLast?_append_of_ne_nil _ (placeParts_ne_nil v), List.getLast?_concat] at hlast
    refine dot_not_mem_placeParts (List.mem_of_getLast? hlast) ?_
    rw [toList_oldName]
    exact List.mem_cons_self
  · exact hplace (hpre.trans (List.dropLast_prefix _))

/-- A package that stands at its place stays there when another one is emitted, unless that comes to
stand at, above or below the place. -/
theorem Holds.emitting (h : Holds t (placeOf output v).trail entries) (hread : output.IsRead)
    (hdots : ∀ f ∈ entries, ∃ part ∈ (ofString f.1).parts, '.' ∈ part.toList)
    (hthrough : ¬ output.LeadsThrough (placeOf output v).trail) (hversion : schema.version = .str u)
    (hemit : Emitting schema deferral output t r t')
    (hapart : r.isOk = true → Incomparable (placeOf output v).trail (placeOf output u).trail) :
    Holds t' (placeOf output v).trail entries := by
  have hsame {q : List String} (hgrown : GrownAt output t t' ((placeOf output v).trail ++ q)) :
      t'.view ((placeOf output v).trail ++ q) = t.view ((placeOf output v).trail ++ q) :=
    hgrown.resolve_right fun hnew ↦ not_prefix_of_visits hthrough hnew.2.2 (List.prefix_append _ _)
  refine h.of_view fun q ↦ hsame ?_
  cases hemit with
  | placed hversion' hfiles hholds hfile hkept =>
    obtain rfl := Json.str.inj (hversion.symm.trans hversion')
    exact hkept _ ((hapart rfl).symm.not_prefix_append q)
  | refused hgrown => exact hgrown _
  | stranded s hversion' hfiles hholds hfile hfree haside hkept =>
    obtain rfl := Json.str.inj (hversion.symm.trans hversion')
    have hdir : t.view (placeOf output v).trail = some .dir := by
      have hroot := (h.dir_iff []).2 (.inl rfl)
      rwa [List.append_nil] at hroot
    -- a file stands at the other place, so no directory stands at or below it
    have habove : ¬ (placeOf output u).trail <+: (placeOf output v).trail := by
      rintro ⟨s, hs⟩
      by_cases hnil : s = []
      · rw [hnil, List.append_nil] at hs
        rw [hs, hdir] at hfile
        cases hfile
      · have hbelow := view_of_append (by rw [hs, hdir]; exact Option.some_ne_none _) hnil
        rw [hbelow] at hfile
        cases hfile
    -- and no file of the package stands where no name has a dot
    have hbelow : ¬ (placeOf output v).trail <+: (placeOf output u).trail := by
      rintro ⟨s, hs⟩
      rw [← hs] at hfile
      obtain ⟨key, hkey, rfl⟩ := (h.file_iff s _).1 hfile
      obtain ⟨part, hpart, hdot⟩ := hdots _ hkey
      rw [(extends_placeOf output v).trail_eq, (extends_placeOf output u).trail_eq,
        List.append_assoc, List.append_right_inj] at hs
      exact dot_not_mem_placeParts (hs ▸ List.mem_append_right _ hpart) hdot
    refine hkept _ (Incomparable.not_prefix_append ⟨habove, hbelow⟩ q) fun heq ↦ ?_
    exact not_prefix_oldOf hread s hbelow ⟨q, heq⟩

end Package

/-! ### Compiling a version -/

/-- The files of the packages of versions stay below their places when the versions are compiled in
turn. -/
def ContainedFrom (apart : Bool) (output : Path) (w : Workspace) (sources : List Source) : Prop :=
  ∀ earlier source later, sources = earlier ++ source :: later → ∀ p files,
    source.package (afterVersions apart output w earlier).tree = .ok (p, files) → Contained files

theorem afterVersion_tree (apart : Bool) (output : Path) (w : Workspace) (source : Source) :
    (afterVersion apart output w source).tree = (execute (compile output source) w).2.tree := by
  cases apart <;> rfl

/-- What becomes of the file system when a version with a package is compiled. -/
theorem emitting_compile {p : Plan} (h : source.package w.tree = .ok (p, files))
    (hread : output.IsRead) (hcontained : Contained files)
    (hthrough : ¬ output.LeadsThrough (placeOf output source.version).trail) :
    p.schema.version = .str source.version ∧ packageFiles p.schema p.deferral = .ok (p, files) ∧
      ∃ r, (execute (compile output source) w).1.isOk = r.isOk ∧
        Emitting p.schema p.deferral output w.tree r
          (execute (compile output source) w).2.tree := by
  obtain ⟨hversion, hfiles, hok, halike⟩ := execute_compile_of_package h output
  refine ⟨hversion, hfiles, _, hok, ?_⟩
  rw [halike.tree]
  refine ends_emit hread (fun p' files' hfiles' ↦ ?_) (fun version hversion' ↦ ?_) w rfl
  · rw [(Prod.mk.inj (Except.ok.inj (hfiles'.symm.trans hfiles))).2]
    exact hcontained
  · rw [← Json.str.inj (hversion.symm.trans hversion')]
    exact hthrough

/-- A version that is compiled has its package at its place, with the version in its root. -/
theorem holds_of_compile (apart : Bool) (hread : output.IsRead)
    (hcontained : ∀ p files, source.package w.tree = .ok (p, files) → Contained files)
    (hthrough : ¬ output.LeadsThrough (placeOf output source.version).trail)
    (hok : (execute (compile output source) w).1.isOk = true) :
    ∃ p files, source.package w.tree = .ok (p, files) ∧
      files.get? initFile = some (rootText (.str source.version)) ∧
      (∀ f ∈ files.entries, ∃ part ∈ (ofString f.1).parts, '.' ∈ part.toList) ∧
      Holds (afterVersion apart output w source).tree
        (placeOf output source.version).trail files.entries := by
  cases hpackage : source.package w.tree with
  | error e =>
    obtain ⟨j, hrun⟩ := execute_compile_error hpackage output
    rw [hrun] at hok
    cases hok
  | ok package =>
    obtain ⟨p, files⟩ := package
    obtain ⟨hversion, hfiles, r, hr, hemit⟩ :=
      emitting_compile hpackage hread (hcontained p files hpackage) hthrough
    have hwritten := (packageFiles_eq_ok_iff.1 hfiles).2
    refine ⟨_, _, rfl, hversion ▸ root_of_filesOf hwritten, exists_dot_of_filesOf hwritten, ?_⟩
    rw [afterVersion_tree]
    rw [hok] at hr
    cases hemit with
    | placed hversion' hfiles' hholds hfile hkept =>
      obtain rfl := Json.str.inj (hversion.symm.trans hversion')
      obtain ⟨-, rfl⟩ := Prod.mk.inj (Except.ok.inj (hfiles.symm.trans hfiles'))
      exact hholds
    | refused hgrown => cases hr
    | stranded s => cases hr

/-- A package stays at its place when a version is compiled, unless the package of that comes to
stand at, above or below the place. -/
theorem holds_afterVersion (h : Holds w.tree (placeOf output v).trail entries)
    (hread : output.IsRead)
    (hdots : ∀ f ∈ entries, ∃ part ∈ (ofString f.1).parts, '.' ∈ part.toList)
    (hcontained : ∀ p files, source.package w.tree = .ok (p, files) → Contained files)
    (hthrough : ¬ output.LeadsThrough (placeOf output v).trail)
    (hthrough' : ¬ output.LeadsThrough (placeOf output source.version).trail)
    (hapart : (execute (compile output source) w).1.isOk = true →
      Incomparable (placeOf output v).trail (placeOf output source.version).trail) :
    Holds (afterVersion apart output w source).tree (placeOf output v).trail entries := by
  cases hpackage : source.package w.tree with
  | error e => rwa [(afterVersion_of_package_error hpackage).tree]
  | ok package =>
    obtain ⟨p, files⟩ := package
    obtain ⟨hversion, -, r, hr, hemit⟩ :=
      emitting_compile hpackage hread (hcontained p files hpackage) hthrough'
    rw [afterVersion_tree]
    exact h.emitting hread hdots hthrough hversion hemit fun hok ↦ hapart (hr.trans hok)

/-! ### Compiling versions in turn -/

namespace ContainedFrom

theorem head (h : ContainedFrom apart output w (source :: sources))
    (p : Plan) (files : Table String) :
    source.package w.tree = .ok (p, files) → Contained files := h [] source sources rfl p files

theorem tail (h : ContainedFrom apart output w (source :: sources)) :
    ContainedFrom apart output (afterVersion apart output w source) sources :=
  fun earlier s later hsources ↦
  h (source :: earlier) s later (congrArg (source :: ·) hsources)

theorem drop {earlier : List Source} (h : ContainedFrom apart output w (earlier ++ sources)) :
    ContainedFrom apart output (afterVersions apart output w earlier) sources := by
  induction earlier generalizing w with
  | nil => exact h
  | cons source earlier ih => exact ih h.tail

end ContainedFrom

/-- The package of no version that is compiled from a workspace comes to stand at, above or below
the place of the package of another version. -/
def Undisturbed (apart : Bool) (output : Path) (w : Workspace) (sources : List Source)
    (version : String) : Prop :=
  ∀ o ∈ outcomesFrom apart output w sources, o.2.isOk = true →
    Incomparable (placeOf output version).trail (placeOf output o.1.version).trail

/-- Versions whose places are apart from that of a version do not disturb it. -/
theorem undisturbed_of_apart (h : ∀ source ∈ sources,
    Incomparable (placeOf output v).trail (placeOf output source.version).trail) :
    Undisturbed apart output w sources v := by
  rintro ⟨source, r⟩ hmem -
  obtain ⟨earlier, later, rfl, -⟩ := mem_outcomesFrom.1 hmem
  exact h source (List.mem_append_right _ List.mem_cons_self)

/-- A package that is not disturbed stays at its place while versions are compiled. -/
theorem holds_afterVersions (h : Holds w.tree (placeOf output v).trail entries)
    (hread : output.IsRead)
    (hdots : ∀ f ∈ entries, ∃ part ∈ (ofString f.1).parts, '.' ∈ part.toList)
    (hcontained : ContainedFrom apart output w sources)
    (hthrough : ¬ output.LeadsThrough (placeOf output v).trail)
    (hthrough' : ∀ source ∈ sources, ¬ output.LeadsThrough (placeOf output source.version).trail)
    (hapart : Undisturbed apart output w sources v) :
    Holds (afterVersions apart output w sources).tree (placeOf output v).trail entries := by
  induction sources generalizing w with
  | nil => exact h
  | cons source rest ih =>
    obtain ⟨hfirst, hrest⟩ := List.forall_mem_cons.1 hthrough'
    obtain ⟨hnow, hlater⟩ := List.forall_mem_cons.1 hapart
    exact ih (holds_afterVersion h hread hdots hcontained.head hthrough hfirst hnow)
      hcontained.tail hrest hlater

/-! ### The alias -/

namespace Package

/-- What goes by a name with a dot next to the packages is not the place of one. -/
theorem not_prefix_child {name : String} (hdot : '.' ∈ name.toList) (version : String) :
    ¬ (placeOf output version).trail <+: output.trail ++ [name] := fun hpre ↦ by
  rw [(extends_placeOf output version).trail_eq, List.prefix_append_right_inj] at hpre
  obtain ⟨first, rest, hparts⟩ := List.exists_cons_of_ne_nil (placeParts_ne_nil version)
  rw [hparts] at hpre
  obtain ⟨rfl, -⟩ := List.cons_prefix_cons.1 hpre
  exact dot_not_mem_placeParts (hparts ▸ List.mem_cons_self) hdot

/-- Next to the packages, what goes by a name with a dot that is not the first of its characters
stays when a package is emitted. -/
theorem Emitting.grownAt_child {schema : Schema} {deferral : Deferral}
    {r : Except EmitError Path} {name : String} (h : Emitting schema deferral output t r t')
    (hread : output.IsRead) (hdot : '.' ∈ name.toList)
    (hhead : name.toList.head? ≠ some '.') : GrownAt output t t' (output.trail ++ [name]) := by
  cases h with
  | placed hversion hfiles hholds hfile hkept => exact hkept _ (not_prefix_child hdot _)
  | refused hgrown => exact hgrown _
  | stranded s hversion hfiles hholds hfile hfree haside hkept =>
    refine hkept _ (not_prefix_child hdot _) fun heq ↦ ?_
    rw [trail_oldOf hread] at heq
    obtain ⟨-, hname⟩ := List.append_inj' heq rfl
    rw [List.cons.inj hname |>.1, toList_oldName] at hhead
    exact hhead rfl

theorem trail_child (output : Path) {name : String} (hname : name ≠ "..") :
    (output.child name).trail = output.trail ++ [name] :=
  Extends.trail_eq ⟨rfl, fun hmem ↦ hname (List.mem_singleton.1 hmem).symm⟩

/-- What becomes of the file system when the alias is written: it stands next to the packages if
that does not fail, and nothing changes but for it and the root of all packages. -/
def Aliasing (output : Path) (version : String) (t : FileTree) {ε α : Type} (r : Except ε α)
    (t' : FileTree) : Prop :=
  (r.isOk = true → t'.view (output.trail ++ ["latest.py"]) = some (.file (latestText version))) ∧
    ∀ q, q ≠ output.trail ++ [initFile] → q ≠ output.trail ++ ["latest.py"] → t'.view q = t.view q

theorem view_of_writeFile {name text : String} (hname : name ≠ "..")
    (h : writeFile (output.child name) text t = .ok t') :
    t'.view = Function.update t.view (output.trail ++ [name]) (some (.file text)) := by
  have htrail := trail_child output hname
  rw [← htrail]
  exact (writeFile_ok
    (by rw [htrail]; exact List.append_ne_nil_of_right_ne_nil _ (List.cons_ne_nil _ _)) h).2.2

theorem ends_emitLatest (output : Path) (version : String) (t : FileTree) :
    Ends (emitLatest output version) t (Aliasing output version t) := by
  have hlatest (u : FileTree) (hu : ∀ q, q ≠ output.trail ++ [initFile] → u.view q = t.view q) :
      Ends (do
        let latest := output.child "latest.py"
        Action.edit (FileTree.writeFile latest (latestText version))
        Action.report .info s!"Emitted {latest.text} aliasing {Identifier.versionSlug version}"
        Pure.pure latest : Action FileError Path) u (Aliasing output version t) := by
    refine Ends.bind (Q := Aliasing output version t) (.edit (fun v hv ↦ ?_) fun e _ ↦ ?_)
      (fun _ v hv ↦ ?_) fun e v hv ↦ ?_
    · have hview := view_of_writeFile (by decide) hv
      refine ⟨fun _ ↦ by rw [hview, Function.update_self], fun q hinit hq ↦ ?_⟩
      rw [hview, Function.update_of_ne hq, hu q hinit]
    · exact ⟨nofun, fun q hinit _ ↦ hu q hinit⟩
    · refine (Ends.report (Q := fun r v' ↦ r = .ok () ∧ v' = v) ⟨rfl, rfl⟩).bind ?_
        fun e v' h ↦ (by cases h.1)
      rintro _ v' ⟨-, rfl⟩
      exact .pure ⟨fun _ ↦ hv.1 rfl, hv.2⟩
    · exact ⟨nofun, hv.2⟩
  refine Ends.bind (Q := fun _ u ↦ u = t) (.look rfl) ?_ ?_
  · rintro found u rfl
    cases found with
    | true => exact hlatest u fun _ _ ↦ rfl
    | false =>
      refine Ends.bind (Q := fun _ v ↦ ∀ q, q ≠ output.trail ++ [initFile] → v.view q = u.view q)
        (.edit (fun v hv ↦ ?_) fun e _ _ _ ↦ rfl) (fun _ v hv ↦ hlatest v hv)
        fun e v hv ↦ ⟨nofun, fun q hinit _ ↦ hv q hinit⟩
      intro q hq
      rw [view_of_writeFile (by decide) hv, Function.update_of_ne hq]
  · rintro e u rfl
    exact ⟨nofun, fun _ _ _ ↦ rfl⟩

/-- A package stays at its place when the alias is written. -/
theorem Holds.aliasing {version : String} {ε α : Type} {r : Except ε α}
    (h : Holds t (placeOf output v).trail entries) (hr : Aliasing output version t r t') :
    Holds t' (placeOf output v).trail entries := by
  refine h.of_view fun q ↦ ?_
  have hne (name : String) (hdot : '.' ∈ name.toList) :
      (placeOf output v).trail ++ q ≠ output.trail ++ [name] :=
    fun heq ↦ not_prefix_child hdot v ⟨q, heq⟩
  exact hr.2 _ (hne _ (by decide)) (hne _ (by decide))

end Package

theorem grownAt_afterVersions {name : String} (hread : output.IsRead)
    (hcontained : ContainedFrom apart output w sources)
    (hthrough : ∀ source ∈ sources, ¬ output.LeadsThrough (placeOf output source.version).trail)
    (hdot : '.' ∈ name.toList) (hhead : name.toList.head? ≠ some '.') :
    GrownAt output w.tree (afterVersions apart output w sources).tree (output.trail ++ [name]) := by
  induction sources generalizing w with
  | nil => exact .inl rfl
  | cons source rest ih =>
    obtain ⟨hfirst, hrest⟩ := List.forall_mem_cons.1 hthrough
    refine GrownAt.trans (u := (afterVersion apart output w source).tree) ?_
      (ih hcontained.tail hrest)
    cases hpackage : source.package w.tree with
    | error e => exact .inl (by rw [(afterVersion_of_package_error hpackage).tree])
    | ok package =>
      obtain ⟨p, files⟩ := package
      obtain ⟨-, -, r, -, hemit⟩ :=
        emitting_compile hpackage hread (hcontained.head p files hpackage) hfirst
      rw [afterVersion_tree]
      exact hemit.grownAt_child hread hdot hhead

end EventSchema
