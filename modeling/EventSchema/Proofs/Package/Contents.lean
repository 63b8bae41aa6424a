import EventSchema.Proofs.Package.Imports
import EventSchema.Proofs.Package.Order
import EventSchema.Proofs.Package.Rendering

/-!
# The files of a package

What files a plan has is said once (`Plan.HasFile`), and the files of a package are those of its
plan (`entries_of_filesOf`). They hold the text of the module of each planned object under the path
of its module (`get?_filesOf`): different objects have different modules, and no module of an object
has the path of another file. The text of a module defines the two names that it exports
(`EntityModule.defines_text`).
-/

namespace EventSchema.Package

variable {s : Schema} {d : Deferral} {p : Plan} {e target : Entity} {n : String}

/-! ### Defined names -/

/-- A text defines a name as a class or as a dictionary type, in a line of its own. -/
def Defines (text name : String) : Prop :=
  ∃ lines, text = joinLines lines ∧
    ((∃ base : String, s!"class {name}({base}):" ∈ lines) ∨ name ++ " = TypedDict(" ∈ lines)

/-- A module defines what its entity exports. -/
theorem EntityModule.defines_text (m : EntityModule) (hn : n ∈ exportsOf m.entity) :
    Defines m.text n := by
  refine ⟨_, rfl, ?_⟩
  rcases List.mem_pair.1 hn with rfl | rfl
  · refine .inl ⟨baseName m.entity.kind, ?_⟩
    simp only [List.mem_append, List.mem_cons, or_true, true_or]
  · refine .inr ?_
    simp only [List.mem_append, List.mem_cons, or_true, true_or]

/-! ### Paths of modules -/

theorem toList_modulePath (folder module : String) :
    (modulePath folder module).toList =
      folder.toList ++ '/' :: (module.toList ++ ".py".toList) := by
  have h : modulePath folder module = folder ++ "/" ++ module ++ ".py" := rfl
  rw [h, String.toList_append, String.toList_append, String.toList_append, List.append_assoc,
    List.append_assoc]
  rfl

theorem barrelPath (folder : String) : s!"{folder}/{initFile}" = modulePath folder "__init__" := by
  have h : s!"{folder}/{initFile}" = folder ++ "/" ++ initFile := rfl
  rw [← String.toList_inj, toList_modulePath, h, String.toList_append, String.toList_append,
    List.append_assoc]
  rfl

theorem modulePath_inj {folder m n : String}
    (h : modulePath folder m = modulePath folder n) : m = n := by
  have hlist := congrArg String.toList h
  simp only [toList_modulePath] at hlist
  have htail := (List.cons.inj (List.append_cancel_left hlist)).2
  exact String.toList_inj.1 (List.append_cancel_right htail)

/-- No other file has the path of the module of an object. -/
theorem modulePath_objects_ne {path module : String} (h : path.toList.head? ≠ some 'o') :
    path ≠ modulePath objectsPackage module := fun heq ↦ by
  rw [heq, toList_modulePath] at h
  exact h rfl

theorem head?_modulePath {folder : String} (h : folder ≠ "") (module : String) :
    (modulePath folder module).toList.head? = folder.toList.head? := by
  rw [toList_modulePath, List.head?_append_of_ne_nil]
  exact fun hnil ↦ h (String.toList_eq_nil_iff.1 hnil)

/-- No entity has a module that is named like a barrel. -/
theorem moduleOf_ne_init (e : Entity) : moduleOf e ≠ "__init__" := fun h ↦
  absurd (congrArg (fun m : String ↦ m.toList.head?) h) (Identifier.head?_moduleName e.name)

/-! ### The files of a plan -/

/-- A text is that of one of the files of a package: of the module of something that is planned, of
the barrel of a sub-package, or of the root. -/
inductive Plan.HasFile (p : Plan) : String → String → Prop where
  /-- The module of a planned object. -/
  | object {e : Entity} {m : EntityModule} (he : e ∈ p.order.filterMap p.objects.get?)
      (hm : EntityModule.of p e = .ok m) : p.HasFile (modulePath objectsPackage (moduleOf e)) m.text
  /-- The module of a planned event class. -/
  | event {e : Entity} {m : EntityModule} (he : e ∈ p.events.values)
      (hm : EntityModule.of p e = .ok m) :
      p.HasFile (modulePath eventsPackage (moduleOf e)) m.text
  /-- The module of a planned enumeration. -/
  | enum {e : String × EnumModel} {text : String} (he : e ∈ p.enums.entries)
      (htext : (e.2.moduleText p.schema.version).mapError RenderError.shape = .ok text) :
      p.HasFile (modulePath enumsPackage e.1) text
  /-- The barrel of the objects. -/
  | objects : p.HasFile (modulePath objectsPackage "__init__") (Barrel.ofObjects p).text
  /-- The barrel of the event classes. -/
  | events : p.HasFile (modulePath eventsPackage "__init__") (Barrel.ofEvents p).text
  /-- The barrel of the enumerations. -/
  | enums : p.HasFile (modulePath enumsPackage "__init__") (Barrel.ofEnums p).text
  /-- The root. -/
  | root : p.HasFile initFile (rootText p.schema.version)

theorem mem_entityFiles {folder : String} {entities : List Entity} {found : List (String × String)}
    (h : entityFiles p folder entities = .ok found) {path text : String} :
    (path, text) ∈ found ↔ ∃ e ∈ entities, ∃ m, EntityModule.of p e = .ok m ∧
      path = modulePath folder (moduleOf e) ∧ text = m.text := by
  rw [mem_of_mapM_ok h]
  refine exists_congr fun e ↦ and_congr_right fun _ ↦ ⟨fun h ↦ ?_, ?_⟩
  · obtain ⟨m, hm, h⟩ := bind_eq_ok h
    cases h
    exact ⟨m, hm, rfl, rfl⟩
  · rintro ⟨m, hm, hpath, htext⟩
    rw [hm, hpath, htext]
    rfl

theorem mem_enumFiles {found : List (String × String)} (h : enumFiles p = .ok found)
    {path text : String} :
    (path, text) ∈ found ↔ ∃ e ∈ p.enums.entries,
      (e.2.moduleText p.schema.version).mapError RenderError.shape = .ok text ∧
        path = modulePath enumsPackage e.1 := by
  rw [mem_of_mapM_ok h]
  refine exists_congr fun e ↦ and_congr_right fun _ ↦ ⟨fun h ↦ ?_, ?_⟩
  · obtain ⟨text, htext, h⟩ := bind_eq_ok h
    cases h
    exact ⟨htext, rfl⟩
  · rintro ⟨htext, hpath⟩
    rw [htext, hpath]
    rfl

/-- The files of a package are those of its plan. -/
theorem entries_of_filesOf {files : Table String} (h : filesOf p = .ok files) :
    ∃ es, files = .ofList es ∧ ∀ path text, (path, text) ∈ es ↔ p.HasFile path text := by
  obtain ⟨objects, hobjects, h⟩ := bind_eq_ok h
  obtain ⟨events, hevents, h⟩ := bind_eq_ok h
  obtain ⟨enums, henums, h⟩ := bind_eq_ok h
  cases h
  refine ⟨_, rfl, fun path text ↦ ?_⟩
  simp only [List.mem_append, List.mem_singleton, Prod.mk.injEq, barrelPath,
    mem_entityFiles hobjects, mem_entityFiles hevents, mem_enumFiles henums]
  constructor
  · rintro ((((((⟨e, he, m, hm, hpath, htext⟩ | ⟨hpath, htext⟩) | ⟨e, he, m, hm, hpath, htext⟩) |
      ⟨hpath, htext⟩) | ⟨e, he, hmodule, hpath⟩) | ⟨hpath, htext⟩) | ⟨hpath, htext⟩)
    · exact hpath ▸ htext ▸ .object he hm
    · exact hpath ▸ htext ▸ .objects
    · exact hpath ▸ htext ▸ .event he hm
    · exact hpath ▸ htext ▸ .events
    · exact hpath ▸ .enum he hmodule
    · exact hpath ▸ htext ▸ .enums
    · exact hpath ▸ htext ▸ .root
  · rintro (⟨he, hm⟩ | ⟨he, hm⟩ | ⟨he, htext⟩ | _ | _ | _ | _)
    exacts [.inl (.inl (.inl (.inl (.inl (.inl ⟨_, he, _, hm, rfl, rfl⟩))))),
      .inl (.inl (.inl (.inl (.inr ⟨_, he, _, hm, rfl, rfl⟩)))),
      .inl (.inl (.inr ⟨_, he, htext, rfl⟩)), .inl (.inl (.inl (.inl (.inl (.inr ⟨rfl, rfl⟩))))),
      .inl (.inl (.inl (.inr ⟨rfl, rfl⟩))), .inl (.inr ⟨rfl, rfl⟩), .inr ⟨rfl, rfl⟩]

/-- Each file is a module of one of the three parts, or the root. -/
theorem Plan.HasFile.path {path text : String} (h : p.HasFile path text) :
    path = initFile ∨ ∃ folder module,
      folder ∈ [objectsPackage, eventsPackage, enumsPackage] ∧ path = modulePath folder module := by
  cases h with
  | root => exact .inl rfl
  | _ => exact .inr ⟨_, _, by simp, rfl⟩

/-- A file in the folder of the objects is the module of an object, or their barrel. -/
theorem Plan.HasFile.of_objects {module text : String}
    (h : p.HasFile (modulePath objectsPackage module) text) :
    (∃ e ∈ p.order.filterMap p.objects.get?, ∃ m,
      EntityModule.of p e = .ok m ∧ module = moduleOf e ∧ text = m.text) ∨
      module = "__init__" ∧ text = (Barrel.ofObjects p).text := by
  generalize hpath : modulePath objectsPackage module = path at h
  have hother {path : String} (hhead : path.toList.head? ≠ some 'o') :
      modulePath objectsPackage module ≠ path :=
    (modulePath_objects_ne hhead).symm
  cases h with
  | object he hm => exact .inl ⟨_, he, _, hm, modulePath_inj hpath, rfl⟩
  | objects => exact .inr ⟨modulePath_inj hpath, rfl⟩
  | root => exact absurd hpath (hother (by decide))
  | _ => exact absurd hpath (hother (by rw [head?_modulePath (by decide)]; decide))

theorem path_of_filesOf {files : Table String} (h : filesOf p = .ok files) {path text : String}
    (hpath : files.get? path = some text) :
    path = initFile ∨ ∃ folder module,
      folder ∈ [objectsPackage, eventsPackage, enumsPackage] ∧ path = modulePath folder module := by
  obtain ⟨es, rfl, hes⟩ := entries_of_filesOf h
  exact ((hes path text).1 (Table.mem_of_get?_ofList hpath)).path

/-- The root of a package states the version of its schema. -/
theorem root_of_filesOf {files : Table String} (h : filesOf p = .ok files) :
    files.get? initFile = some (rootText p.schema.version) := by
  obtain ⟨es, rfl, hes⟩ := entries_of_filesOf h
  refine Table.get?_ofList ((hes _ _).2 .root) fun text htext ↦ ?_
  have hfile := (hes _ _).1 htext
  have hother {folder module : String} (hne : folder ≠ "")
      (hhead : folder.toList.head? ≠ some '_') : initFile ≠ modulePath folder module := fun heq ↦ by
    refine hhead ((head?_modulePath hne module).symm.trans ?_)
    rw [← heq]
    decide
  generalize hpath : initFile = path at hfile
  cases hfile with
  | root => rfl
  | _ => exact absurd hpath (hother (by decide) (by decide))

/-! ### The version that a package states -/

theorem toList_joinLines_cons (l : String) {ls : List String} (h : ls ≠ []) :
    (joinLines (l :: ls)).toList = l.toList ++ '\n' :: (joinLines ls).toList := by
  rw [joinLines, joinLines, String.toList_intercalate, String.toList_intercalate, List.map_cons,
    List.intercalate_cons_of_ne_nil (by simp [h]), List.append_assoc]
  rfl

/-- The last lines of a text are at its end. -/
theorem suffix_joinLines (ls : List String) {ms : List String} (h : ms ≠ []) :
    (joinLines ms).toList <:+ (joinLines (ls ++ ms)).toList := by
  induction ls with
  | nil => exact List.suffix_rfl
  | cons l ls ih =>
    rw [List.cons_append, toList_joinLines_cons l (by simp [h]), ← List.singleton_append,
      ← List.append_assoc]
    exact ih.trans (List.suffix_append _ _)

/-- The line in which the root of a package states its version. -/
def versionLine (version : Json) : String := s!"{versionName} = {version.document Json.codeLayout}"

/-- The roots of packages state different versions if the lines in which they state them are of one
length. -/
theorem versionLine_eq_of_rootText_eq {a b : Json} (h : rootText a = rootText b)
    (hlength : (versionLine a).toList.length = (versionLine b).toList.length) :
    versionLine a = versionLine b := by
  have hsuffix (version : Json) :
      (versionLine version).toList ++ '\n' :: (joinLines ("" :: exportLines
      [versionName, enumsPackage, eventsPackage, objectsPackage])).toList <:+
    (rootText version).toList := by
    rw [← toList_joinLines_cons _ (List.cons_ne_nil _ _), rootText, List.append_assoc,
      List.append_assoc]
    refine List.IsSuffix.trans ?_ (suffix_joinLines _ (by simp))
    refine List.IsSuffix.trans ?_ (suffix_joinLines _ (by simp))
    exact suffix_joinLines ["", _, ""] (List.cons_ne_nil _ _)
  have ha := hsuffix a
  rw [h] at ha
  have heq := (List.suffix_of_suffix_length_le ha (hsuffix b) (by simp [hlength])).eq_of_length
    (by simp [hlength])
  exact String.toList_inj.1 (List.append_cancel_right heq)

/-! ### The modules of the objects -/

/-- The objects in their order are the planned objects. -/
theorem perm_values_of_order (h : p.order.Perm p.objects.names) :
    (p.order.filterMap p.objects.get?).Perm p.objects.values := by
  have hvalues : p.objects.names.filterMap p.objects.get? = p.objects.values := by
    rw [Table.names, Entries.names, List.filterMap_map, Table.values, Entries.values,
      ← List.filterMap_eq_map]
    exact List.filterMap_congr fun e he ↦ Table.get?_eq_some_iff.2 he
  exact hvalues ▸ h.filterMap p.objects.get?

/-- Where different objects have different modules, the files hold the text of each object's
module. -/
theorem get?_filesOf {files : Table String} (horder : p.order.Perm p.objects.names)
    (hdistinct : Distinguished p.objects.values) (h : filesOf p = .ok files)
    (htarget : p.objects.get? n = some target) :
    ∃ m, EntityModule.of p target = .ok m ∧
      files.get? (modulePath objectsPackage (moduleOf target)) = some m.text := by
  have hordered : ∀ {e}, e ∈ p.order.filterMap p.objects.get? ↔ e ∈ p.objects.values :=
    (perm_values_of_order horder).mem_iff
  have hplanned : target ∈ p.objects.values := Table.mem_values_iff.2 ⟨n, htarget⟩
  obtain ⟨objects, hobjects, -⟩ := bind_eq_ok h
  obtain ⟨f, hf⟩ := exists_of_mapM_ok hobjects (hordered.2 hplanned)
  obtain ⟨m, hm, -⟩ := bind_eq_ok hf
  obtain ⟨es, rfl, hes⟩ := entries_of_filesOf h
  refine ⟨m, hm,
    Table.get?_ofList ((hes _ _).2 (.object (hordered.2 hplanned) hm)) fun text htext ↦ ?_⟩
  rcases ((hes _ _).1 htext).of_objects with ⟨e, he, m', hm', hmodule, heq⟩ | ⟨hinit, -⟩
  · obtain rfl : target = e :=
      List.inj_on_of_nodup_map hdistinct.modules hplanned (hordered.1 he) hmodule
    rw [heq, Except.ok.inj (hm.symm.trans hm')]
  · exact absurd hinit (moduleOf_ne_init target)

end EventSchema.Package
