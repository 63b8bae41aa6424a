import EventSchema.Proofs.Package.Reachability

/-!
# The paths of files

A package has three parts, each with one module for each of its entities or enumerations and a
barrel, and a root. The names that a plan was checked for are enough to tell all these files apart
(`filesApart_of_plan`): modules of one part have different names, no class name gives a module the
name of a barrel, and a path tells its part and its module (`modulePath_inj_of_folders`). So no file
takes the place of another, and neither do exported names.
-/

namespace EventSchema.Package

variable {s : Schema} {d : Deferral} {p : Plan} {enums : Table EnumModel}

/-! ### Paths -/

/-- The module name of a barrel. -/
def barrelModule : String := "__init__"

/-- The parts of a package, with the modules that each of them has beside its barrel. -/
def Plan.parts (p : Plan) : List (String × List String) :=
  [(objectsPackage, (p.order.filterMap p.objects.get?).map moduleOf),
    (eventsPackage, p.events.values.map moduleOf), (enumsPackage, p.enums.names)]

/-- The paths of the modules of a part. -/
def modulePaths (part : String × List String) : List String := part.2.map (modulePath part.1)

/-- The paths under which the files of a package are written, in the order in which they are. -/
def Plan.paths (p : Plan) : List String :=
  (p.parts.flatMap fun part ↦ modulePaths part ++ [modulePath part.1 barrelModule]) ++ [initFile]

/-- The paths of the files that make directories packages. -/
def initPaths : List String :=
  initFile :: [objectsPackage, eventsPackage, enumsPackage].map fun folder ↦
    modulePath folder barrelModule

/-- The part of a path is what stands before its first slash. -/
theorem takeWhile_modulePath {folder : String} (h : '/' ∉ folder.toList) (module : String) :
    (modulePath folder module).toList.takeWhile (· != '/') = folder.toList := by
  rw [toList_modulePath, List.takeWhile_append_of_pos, List.takeWhile_cons_of_neg (by decide),
    List.append_nil]
  exact fun c hc ↦ bne_iff_ne.2 fun heq ↦ h (heq ▸ hc)

/-- A path tells the part and the module. -/
theorem modulePath_inj_of_folders {f g m n : String} (hf : '/' ∉ f.toList) (hg : '/' ∉ g.toList)
    (h : modulePath f m = modulePath g n) : f = g ∧ m = n := by
  have hfolder : f.toList = g.toList := by
    rw [← takeWhile_modulePath hf m, h, takeWhile_modulePath hg n]
  obtain rfl := String.toList_inj.1 hfolder
  exact ⟨rfl, modulePath_inj h⟩

/-- No module has the path of the root. -/
theorem modulePath_ne_initFile (folder module : String) :
    modulePath folder module ≠ initFile := fun heq ↦ by
  have hslash : '/' ∈ (modulePath folder module).toList := by
    rw [toList_modulePath]
    exact List.mem_append_right _ List.mem_cons_self
  rw [heq] at hslash
  exact absurd hslash (by decide)

/-! ### Modules of enumerations -/

theorem names_addEnums {rest : List EnumModel} {found : Table EnumModel}
    (h : addEnums enums rest = .ok found) :
    found.names = enums.names ++ rest.map EnumModel.moduleName := by
  induction rest generalizing enums with
  | nil =>
    cases h
    exact (List.append_nil _).symm
  | cons e rest ih =>
    rw [addEnums] at h
    split at h
    · cases h
    · next hnew =>
      rw [ih h, names_put_of_get?_eq_none hnew, List.append_assoc, List.map_cons,
        List.singleton_append]

/-- The class name of an enumeration does not begin with an underscore. -/
theorem head?_typeName_activities {e : Entity} {enum : EnumModel}
    (h : EnumModel.activities? e = some enum) :
    enum.typeName.toList.head? ≠ some '_' := by
  unfold EnumModel.activities? at h
  split at h
  · cases h
  split at h
  · cases h
    have htype := Identifier.underscore_not_mem_typeName e.name
    rw [String.toList_append]
    intro hhead
    rcases List.mem_append.1 (List.mem_of_mem_head? hhead) with hmem | hmem
    · exact htype hmem
    · exact absurd hmem (by decide)
  · cases h

/-- No enumeration has a module with the name of a barrel. -/
theorem barrelModule_not_mem_plannedEnums {events : Table Entity}
    (h : plannedEnums s events = .ok enums) :
    barrelModule ∉ enums.names := by
  obtain ⟨found, hfound, h⟩ := bind_eq_ok h
  cases h
  have hperm : found.sorted.names.Perm found.names :=
    (List.mergeSort_perm found.entries _).map Prod.fst
  rw [hperm.mem_iff, names_addEnums hfound]
  intro hmem
  obtain ⟨e, he, hmodule⟩ := List.mem_map.1 ((List.mem_append.1 hmem).resolve_left List.not_mem_nil)
  have hhead : e.typeName.toList.head? ≠ some '_' := by
    rcases List.mem_append.1 he with he | he
    · obtain ⟨shared, -, rfl⟩ := List.mem_map.1 he
      exact fun hhead ↦
        Identifier.underscore_not_mem_typeName shared.name (List.mem_of_mem_head? hhead)
    · obtain ⟨event, -, hactivities⟩ := List.mem_filterMap.1 he
      exact head?_typeName_activities hactivities
  exact absurd (congrArg (fun m : String ↦ m.toList.head?) hmodule)
    (Identifier.head?_moduleName_of hhead)

/-! ### Different paths -/

/-- Modules of the three parts that are different and none of which is named like a barrel. -/
structure Plan.PartsApart (p : Plan) : Prop where
  nodup : ∀ part ∈ p.parts, part.2.Nodup
  fresh : ∀ part ∈ p.parts, barrelModule ∉ part.2

theorem barrelModule_not_mem_map (es : List Entity) :
    barrelModule ∉ es.map moduleOf := fun hmem ↦ by
  obtain ⟨e, -, hmodule⟩ := List.mem_map.1 hmem
  exact moduleOf_ne_init e hmodule

/-- What planning a package checks. -/
theorem checked_of_plan (h : plan s d = .ok p) : p.order.Perm p.objects.names ∧
    Distinguished p.objects.values ∧ Distinguished p.events.values ∧
    barrelModule ∉ p.enums.names := by
  have hp := plan_eq_ok_iff.1 h
  exact ⟨(objectOrder_ordered hp.order).1, .of_checkNames hp.objectNames,
    .of_checkNames hp.eventNames, barrelModule_not_mem_plannedEnums hp.enums⟩

theorem partsApart_of_plan (h : plan s d = .ok p) : p.PartsApart := by
  obtain ⟨horder, hobjects, hevents, henums⟩ := checked_of_plan h
  constructor
  · intro part hpart
    simp only [Plan.parts, List.mem_cons, List.not_mem_nil, or_false] at hpart
    rcases hpart with rfl | rfl | rfl
    · exact (((perm_values_of_order horder).map moduleOf).nodup_iff).2 hobjects.modules
    · exact hevents.modules
    · exact p.enums.nodup
  · intro part hpart
    simp only [Plan.parts, List.mem_cons, List.not_mem_nil, or_false] at hpart
    rcases hpart with rfl | rfl | rfl
    · exact barrelModule_not_mem_map _
    · exact barrelModule_not_mem_map _
    · exact henums

theorem slash_not_mem_of_mem_parts {part : String × List String} (h : part ∈ p.parts) :
    '/' ∉ part.1.toList := by
  have hfolders : ∀ folder ∈ [objectsPackage, eventsPackage, enumsPackage],
      '/' ∉ folder.toList := by decide
  exact hfolders part.1 (List.mem_map_of_mem (f := Prod.fst) h)

/-- The paths of a part with its barrel. -/
theorem mem_part {part : String × List String} {path : String} :
    path ∈ modulePaths part ++ [modulePath part.1 barrelModule] ↔
      ∃ module ∈ part.2 ++ [barrelModule], path = modulePath part.1 module := by
  rw [modulePaths, ← List.map_singleton (f := modulePath part.1), ← List.map_append, List.mem_map]
  exact exists_congr fun _ ↦ and_congr_right fun _ ↦ eq_comm

theorem Plan.PartsApart.nodup_paths (h : p.PartsApart) : p.paths.Nodup := by
  refine List.nodup_append.2 ⟨List.nodup_flatMap.2 ⟨fun part hpart ↦ ?_, ?_⟩,
    List.nodup_singleton _, ?_⟩
  · rw [modulePaths, ← List.map_singleton (f := modulePath part.1), ← List.map_append]
    refine (List.nodup_append.2 ⟨h.nodup part hpart, List.nodup_singleton _, ?_⟩).map fun _ _ ↦
      modulePath_inj
    rintro m hm _ hn rfl
    exact h.fresh part hpart (List.mem_singleton.1 hn ▸ hm)
  · -- the three parts have different names, and a path tells its part
    have hfolders : (p.parts.map Prod.fst).Nodup := by
      have hnames : p.parts.map Prod.fst = [objectsPackage, eventsPackage, enumsPackage] := rfl
      rw [hnames]
      decide
    refine (List.pairwise_map.1 hfolders).imp_of_mem fun {a b} ha hb hne path hpa hpb ↦ hne ?_
    obtain ⟨m, -, rfl⟩ := mem_part.1 hpa
    obtain ⟨n, -, heq⟩ := mem_part.1 hpb
    exact (modulePath_inj_of_folders (slash_not_mem_of_mem_parts ha)
      (slash_not_mem_of_mem_parts hb) heq).1
  · rintro path hpath _ hroot rfl
    obtain ⟨part, -, hpart⟩ := List.mem_flatMap.1 hpath
    obtain ⟨module, -, heq⟩ := mem_part.1 hpart
    exact modulePath_ne_initFile _ _ (heq.symm.trans (List.mem_singleton.1 hroot))

/-- No module has the path of a barrel or of the root. -/
theorem Plan.PartsApart.not_mem_initPaths (h : p.PartsApart) {part : String × List String}
    (hpart : part ∈ p.parts) {path : String} (hpath : path ∈ modulePaths part) :
    path ∉ initPaths := by
  obtain ⟨module, hmodule, rfl⟩ := List.mem_map.1 hpath
  intro hmem
  rcases List.mem_cons.1 hmem with hroot | hbarrel
  · exact modulePath_ne_initFile _ _ hroot
  · obtain ⟨folder, hfolder, heq⟩ := List.mem_map.1 hbarrel
    have hslash : ∀ f ∈ [objectsPackage, eventsPackage, enumsPackage], '/' ∉ f.toList := by decide
    obtain ⟨-, rfl⟩ :=
      modulePath_inj_of_folders (hslash folder hfolder) (slash_not_mem_of_mem_parts hpart) heq
    exact h.fresh part hpart hmodule

/-! ### Files and exported names -/

theorem map_fst_entityFiles {folder : String} {entities : List Entity}
    {found : List (String × String)} (h : entityFiles p folder entities = .ok found) :
    found.map Prod.fst = modulePaths (folder, entities.map moduleOf) := by
  rw [modulePaths, List.map_map]
  refine map_eq_of_mapM_ok h fun e f hf ↦ ?_
  obtain ⟨m, -, hf⟩ := bind_eq_ok hf
  cases hf
  rfl

theorem map_fst_enumFiles {found : List (String × String)} (h : enumFiles p = .ok found) :
    found.map Prod.fst = modulePaths (enumsPackage, p.enums.names) := by
  rw [modulePaths, Table.names, Entries.names, List.map_map]
  refine map_eq_of_mapM_ok h fun e f hf ↦ ?_
  obtain ⟨text, -, hf⟩ := bind_eq_ok hf
  cases hf
  rfl

/-- The files of a package stand under its paths. -/
theorem names_filesOf {files : Table String} (hpaths : p.paths.Nodup) (h : filesOf p = .ok files) :
    files.names = p.paths := by
  obtain ⟨objects, hobjects, h⟩ := bind_eq_ok h
  obtain ⟨events, hevents, h⟩ := bind_eq_ok h
  obtain ⟨enums, henums, h⟩ := bind_eq_ok h
  cases h
  have hnames :
      Entries.names (objects ++ [(s!"{objectsPackage}/{initFile}", (Barrel.ofObjects p).text)]
      ++ events ++ [(s!"{eventsPackage}/{initFile}", (Barrel.ofEvents p).text)]
      ++ enums ++ [(s!"{enumsPackage}/{initFile}", (Barrel.ofEnums p).text)]
      ++ [(initFile, rootText p.schema.version)]) = p.paths := by
    simp only [Entries.names, List.map_append, map_fst_entityFiles hobjects,
      map_fst_entityFiles hevents, map_fst_enumFiles henums, List.map_cons, List.map_nil,
      barrelPath, Plan.paths, Plan.parts, List.flatMap_cons,
      List.flatMap_nil, barrelModule, List.append_assoc, List.nil_append]
  rw [Table.names_ofList (hnames ▸ hpaths), hnames]

theorem length_paths (horder : p.order.Perm p.objects.names) :
    p.paths.length = p.objects.size + p.events.size + p.enums.size + 4 := by
  have hobjects := (perm_values_of_order horder).length_eq
  simp only [Plan.paths, Plan.parts, modulePaths, List.flatMap_cons, List.flatMap_nil,
    List.length_append, List.length_map, List.length_cons, List.length_nil, hobjects, Table.values,
    Entries.values, Table.names, Entries.names, Table.size]
  omega

/-- The names that a barrel of different entities exports are different. -/
theorem Distinguished.nodup_exported {es : List Entity}
    (h : Distinguished es) (description : String) :
    (⟨description, es.map Barrel.entityImport⟩ : Barrel).exported.Nodup := by
  rw [Barrel.exported, (List.mergeSort_perm _ _).nodup_iff, List.flatMap_map]
  exact h.exports

theorem Distinguished.sublist {es fs : List Entity} (h : Distinguished fs) (hsub : es.Sublist fs) :
    Distinguished es where
  modules := h.modules.sublist (hsub.map moduleOf)
  exports := h.exports.sublist (hsub.flatMap exportsOf)
  free n hn := h.free n ((hsub.flatMap exportsOf).subset hn)

theorem Distinguished.perm {es fs : List Entity} (h : Distinguished fs) (hperm : es.Perm fs) :
    Distinguished es where
  modules := (hperm.map moduleOf).nodup_iff.2 h.modules
  exports := (hperm.flatMap_right exportsOf).nodup_iff.2 h.exports
  free n hn := h.free n ((hperm.flatMap_right exportsOf).subset hn)

/-- The files of a plan, told apart. -/
structure Plan.FilesApart (p : Plan) : Prop where
  /-- No two files have one path. -/
  nodup : p.paths.Nodup
  /-- There is one for each planned entity and enumeration, one for each part and the root. -/
  length : p.paths.length = p.objects.size + p.events.size + p.enums.size + 4
  /-- The package has exactly these files. -/
  files : ∀ files, filesOf p = .ok files → files.names = p.paths ∧
    files.size = p.objects.size + p.events.size + p.enums.size + 4
  /-- No module has the path of a file that makes a directory a package. -/
  fresh : ∀ part ∈ p.parts, ∀ path ∈ modulePaths part, path ∉ initPaths
  /-- The barrel of the objects exports different names. -/
  objects : (Barrel.ofObjects p).exported.Nodup
  /-- So does the barrel of the event classes. -/
  events : (Barrel.ofEvents p).exported.Nodup

/-- **Files and names apart.** In the package of a plan no file is written over another one: there
is one for each planned object, event class and enumeration and four more, no module takes the path
of a barrel or of the root, and the names that the barrels of objects and of event classes export
are different. -/
theorem filesApart_of_plan (s : Schema) (d : Deferral) (p : Plan) (h : plan s d = .ok p) :
    p.FilesApart := by
  obtain ⟨horder, hobjects, hevents, -⟩ := checked_of_plan h
  have hparts := partsApart_of_plan h
  have hpaths := hparts.nodup_paths
  constructor
  case nodup => exact hpaths
  case length => exact length_paths horder
  case files =>
    intro files hfiles
    have hnames := names_filesOf hpaths hfiles
    have hsize : files.size = files.names.length := (List.length_map _).symm
    exact ⟨hnames, hsize.trans (hnames ▸ length_paths horder)⟩
  case fresh => exact fun part hpart path hpath ↦ hparts.not_mem_initPaths hpart hpath
  case objects =>
    have hplanned := hobjects.perm (perm_values_of_order horder)
    exact (hplanned.sublist List.filter_sublist).nodup_exported _
  case events => exact hevents.nodup_exported _

/-- The package of trails has files for its four objects and its event class, none for the spare
object, and four more. -/
theorem filesApart_of_plan_trailSchema :
    ∃ p, plan trailSchema userGroupsLate = .ok p ∧ p.FilesApart ∧
    p.paths.take 5 = ["objects/user.py", "objects/group.py", "objects/trail.py", "objects/audit.py",
      "objects/__init__.py"] := by
  obtain ⟨p, hplan, -, hobjects, horder⟩ := exists_plan_trailSchema
  refine ⟨p, hplan, filesApart_of_plan _ _ p hplan, ?_⟩
  have hmodules :
      (p.order.filterMap p.objects.get?).map moduleOf = ["user", "group", "trail", "audit"] := by
    rw [horder, hobjects]
    decide +kernel
  rw [Plan.paths, Plan.parts, hmodules]
  rfl

end EventSchema.Package
