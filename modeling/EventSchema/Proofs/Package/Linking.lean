import EventSchema.Proofs.Package.BindingRounds
import EventSchema.Proofs.Package.FilePaths
import EventSchema.Proofs.Package.LinkClosure

/-!
# Modules of a plan

The modules of a plan have full names in the package (`get?_modules`). They are loaded and take
names late as their files say (`followsFiles_of_holds`); they load and bind modules of the package
alone, and take no two names late that go by one name (`encloses_of_holds`). Nothing is missing
where every file of the package is a module: what is loaded with a module is there
(`mem_names_of_mem_eager`), and a late name comes from the module of a planned object, which defines
it (`exists_bindModule_ok`).
-/

namespace EventSchema.Package

variable {p : Plan} {library : Library} {package m n own folder : String}
  {f : Folder} {s t : Loader} {content module : PackageModule} {b : LateBinding}

/-! ### Names that late bindings go by -/

/-- A name that is taken late stands among the imports. -/
theorem mem_of_mem_lateBindings {imports : Table (List Binding)} (h : b ∈ lateBindings imports) :
    Lists imports b.sibling ⟨b.exported, b.localName⟩ := by
  obtain ⟨name, hname⟩ := Table.mem_values_iff.1 h
  obtain ⟨⟨source, bindings⟩, hsource, hb⟩ := List.mem_flatMap.1 (Table.mem_of_get?_ofList hname)
  obtain ⟨binding, hbinding, heq⟩ := List.mem_map.1 hb
  obtain ⟨-, rfl⟩ := Prod.mk.inj heq
  refine ⟨bindings, ?_, hbinding⟩
  rw [← Table.get?_sorted]
  exact Table.get?_eq_some_iff.2 hsource

/-- Late names go by different names. -/
theorem nodup_lateBindings (imports : Table (List Binding)) :
    ((lateBindings imports).map LateBinding.localName).Nodup := by
  rw [lateBindings, Table.values, Entries.values, List.map_map]
  refine (List.map_congr_left fun e he ↦ ?_).symm ▸ (Table.ofList _).nodup
  obtain ⟨name, late⟩ := e
  obtain ⟨i, -, hb⟩ := List.mem_flatMap.1 (Table.mem_of_get?_ofList (Table.get?_eq_some_iff.2 he))
  obtain ⟨binding, -, heq⟩ := List.mem_map.1 hb
  obtain ⟨rfl, rfl⟩ := Prod.mk.inj heq
  rfl

/-! ### Modules of a plan -/

/-- A file is one of the modules of an entity or an enumeration of a sub-package. -/
inductive Plan.HasModule (p : Plan) (package : String) : String → String →
    PackageModule → Prop where
  /-- The module of a planned object. -/
  | object {e : Entity} (he : e ∈ p.objects.values) :
    p.HasModule package objectsPackage (moduleOf e) (.ofEntity p package e)
  /-- The module of a planned event class. -/
  | event {e : Entity} (he : e ∈ p.events.values) :
    p.HasModule package eventsPackage (moduleOf e) (.ofEntity p package e)
  /-- The module of a planned enumeration. -/
  | enum {e : EnumModel} {name : String} (he : p.enums.get? name = some e) :
    p.HasModule package enumsPackage name (.ofEnum e)

/-- A module of a folder is a module of the plan. -/
theorem hasModule_of_mem (hf : f ∈ p.folders package) (h : (own, content) ∈ f.modules) :
    p.HasModule package f.name own content := by
  simp only [Plan.folders, List.mem_cons, List.not_mem_nil, or_false] at hf
  rcases hf with rfl | rfl | rfl
  · obtain ⟨e, he, heq⟩ := List.mem_map.1 h
    obtain ⟨rfl, rfl⟩ := Prod.mk.inj heq
    exact .object he
  · obtain ⟨e, he, heq⟩ := List.mem_map.1 h
    obtain ⟨rfl, rfl⟩ := Prod.mk.inj heq
    exact .event he
  · obtain ⟨⟨name, e⟩, he, heq⟩ := List.mem_map.1 h
    obtain ⟨rfl, rfl⟩ := Prod.mk.inj heq
    exact .enum (Table.get?_eq_some_iff.2 he)

/-- A module of a plan is one of some folder. -/
theorem exists_folder (h : p.HasModule package folder own content) :
    ∃ f ∈ p.folders package, f.name = folder ∧ (own, content) ∈ f.modules := by
  simp only [Plan.folders, List.exists_mem_cons_iff]
  cases h with
  | object he => exact .inl ⟨rfl, List.mem_map.2 ⟨_, he, rfl⟩⟩
  | event he => exact .inr (.inl ⟨rfl, List.mem_map.2 ⟨_, he, rfl⟩⟩)
  | enum he => exact .inr (.inr (.inl ⟨rfl, List.mem_map.2 ⟨_, Table.get?_eq_some_iff.1 he, rfl⟩⟩))

/-- A module of a package is the package itself, a sub-package or a module of a sub-package. -/
theorem cases_of_get?_modules (h : (p.modules package).get? n = some module) :
    (n, module) = rootModule package ∨ (∃ f ∈ p.folders package, (n, module) = f.root package) ∨
      ∃ folder own content, p.HasModule package folder own content ∧ '.' ∉ own.toList ∧
        n = inPackage package (inPackage folder own) ∧
        module =
          { content with eager := package :: inPackage package folder :: content.eager } := by
  rcases List.mem_cons.1 (Table.mem_of_get?_ofList h) with h | h
  · exact .inl h
  obtain ⟨f, hf, h⟩ := List.mem_flatMap.1 h
  rcases List.mem_cons.1 h with h | h
  · exact .inr (.inl ⟨f, hf, h⟩)
  obtain ⟨⟨own, content⟩, hmem, heq⟩ := List.mem_map.1 h
  obtain ⟨hmem, hdot⟩ := List.mem_filter.1 hmem
  obtain ⟨rfl, rfl⟩ := Prod.mk.inj heq
  refine .inr (.inr ⟨f.name, own, content, hasModule_of_mem hf hmem, ?_, rfl, rfl⟩)
  simpa using hdot

theorem mem_names_root (p : Plan) (package : String) : package ∈ (p.modules package).names :=
  Table.mem_names_ofList.2 List.mem_cons_self

theorem mem_names_of_mem_folder (hf : f ∈ p.folders package) {e : String × PackageModule}
    (he : e ∈ f.root package :: f.members package) : e.1 ∈ (p.modules package).names := by
  refine Table.mem_names_ofList.2 (List.mem_map.2 ⟨e, ?_, rfl⟩)
  exact List.mem_cons_of_mem _ (List.mem_flatMap.2 ⟨f, hf, he⟩)

theorem mem_names_folder (hf : f ∈ p.folders package) :
    f.fullName package ∈ (p.modules package).names :=
  mem_names_of_mem_folder hf (e := f.root package) List.mem_cons_self

/-- A module of a plan is in the package under its full name. -/
theorem mem_names_module (h : p.HasModule package folder own content) (hdot : '.' ∉ own.toList) :
    inPackage package (inPackage folder own) ∈ (p.modules package).names := by
  obtain ⟨f, hf, rfl, hmem⟩ := exists_folder h
  have hmember : (own, content) ∈ f.modules.filter fun m ↦ !m.1.toList.contains '.' :=
    List.mem_filter.2 ⟨hmem, by simpa using hdot⟩
  exact mem_names_of_mem_folder hf (List.mem_cons_of_mem _ (List.mem_map_of_mem hmember))

/-- The modules of a sub-package, told by its name. -/
theorem cases_of_hasModule (h : p.HasModule package folder own content) :
    (folder = objectsPackage ∧ ∃ e ∈ p.objects.values, moduleOf e = own ∧
      .ofEntity p package e = content) ∨
      (folder = eventsPackage ∧ ∃ e ∈ p.events.values, moduleOf e = own ∧
        .ofEntity p package e = content) ∨
      (folder = enumsPackage ∧ ∃ e, p.enums.get? own = some e ∧ .ofEnum e = content) := by
  cases h with
  | object he => exact .inl ⟨rfl, _, he, rfl, rfl⟩
  | event he => exact .inr (.inl ⟨rfl, _, he, rfl, rfl⟩)
  | enum he => exact .inr (.inr ⟨rfl, _, he, rfl⟩)

/-- Entities with different modules have one module each. -/
theorem ofEntity_unique {es : List Entity} (hes : Distinguished es) {other : PackageModule}
    (h : ∃ e ∈ es, moduleOf e = own ∧ .ofEntity p package e = content)
    (h' : ∃ e ∈ es, moduleOf e = own ∧ .ofEntity p package e = other) : content = other := by
  obtain ⟨e, he, hown, rfl⟩ := h
  obtain ⟨e', he', hown', rfl⟩ := h'
  rw [List.inj_on_of_nodup_map hes.modules he he' (hown.trans hown'.symm)]

/-- A sub-package has one module of a name. -/
theorem hasModule_unique (hobjects : Distinguished p.objects.values)
    (hevents : Distinguished p.events.values) {other : PackageModule}
    (h : p.HasModule package folder own content) (h' : p.HasModule package folder own other) :
    content = other := by
  rcases cases_of_hasModule h with ⟨rfl, hone⟩ | ⟨rfl, hone⟩ | ⟨rfl, hone⟩ <;>
    rcases cases_of_hasModule h' with ⟨hfolder, htwo⟩ | ⟨hfolder, htwo⟩ | ⟨hfolder, htwo⟩
  case inl.inl => exact ofEntity_unique hobjects hone htwo
  case inr.inl.inr.inl => exact ofEntity_unique hevents hone htwo
  case inr.inr.inr.inr =>
    obtain ⟨e, he, rfl⟩ := hone
    obtain ⟨e', he', rfl⟩ := htwo
    rw [Option.some.inj (he.symm.trans he')]
  -- the three sub-packages have different names
  all_goals exact absurd hfolder (by decide)

/-- The modules of the sub-packages stand under their full names. -/
theorem get?_modules (hobjects : Distinguished p.objects.values)
    (hevents : Distinguished p.events.values) (h : p.HasModule package folder own content)
    (hdot : '.' ∉ own.toList) :
    (p.modules package).get? (inPackage package (inPackage folder own)) =
      some { content with eager := package :: inPackage package folder :: content.eager } := by
  obtain ⟨module, hmodule⟩ := Table.mem_names_iff.1 (mem_names_module h hdot)
  rw [hmodule]
  rcases cases_of_get?_modules hmodule with heq | ⟨f, hf, heq⟩ |
    ⟨folder', own', content', h', hdot', hname, rfl⟩
  · have hlength := congrArg (fun s : String ↦ s.toList.length) (Prod.mk.inj heq).1
    simp [toList_inPackage] at hlength
  · have hname := inPackage_inj.1 (Prod.mk.inj heq).1
    have hplain : ∀ f ∈ p.folders package, '.' ∉ f.name.toList := by
      simp [Plan.folders, objectsPackage, eventsPackage, enumsPackage]
    refine absurd ?_ (hplain f hf)
    rw [← hname, toList_inPackage]
    exact List.mem_append_right _ List.mem_cons_self
  · -- without a dot of its own a module tells its sub-package
    have hname := inPackage_inj.1 hname
    have hfolder := congrArg enclosing hname
    rw [enclosing_inPackage hdot, enclosing_inPackage hdot'] at hfolder
    subst hfolder
    obtain rfl := inPackage_inj.1 hname
    rw [hasModule_unique hobjects hevents h h']

/-- What the modules of entities and enumerations import at once are modules of objects. -/
theorem exists_target_of_mem_eager (h : p.HasModule package folder own content)
    (hn : n ∈ content.eager) :
    ∃ target ∈ p.objects.values,
    n = inPackage package (inPackage objectsPackage (moduleOf target)) := by
  have hentity (e : Entity) (hn : n ∈ (PackageModule.ofEntity p package e).eager) :
      ∃ target ∈ p.objects.values,
      n = inPackage package (inPackage objectsPackage (moduleOf target)) := by
    obtain ⟨⟨link, target⟩, hlink, hn⟩ := List.mem_filterMap.1 hn
    obtain ⟨object, -, hobject, -⟩ := mem_linksOf.1 hlink
    refine ⟨target, Table.mem_values_iff.2 ⟨object, hobject⟩, ?_⟩
    cases link with
    | eager source => exact (Option.some.inj hn).symm
    | _ => cases hn
  cases h with
  | object he => exact hentity _ hn
  | event he => exact hentity _ hn
  | enum he => exact absurd hn List.not_mem_nil

/-- No module takes a name late twice. -/
theorem nodup_late (h : p.HasModule package folder own content) :
    (content.late.map LateBinding.localName).Nodup := by
  cases h with
  | object he => exact nodup_lateBindings _
  | event he => exact nodup_lateBindings _
  | enum he => exact List.nodup_nil

/-! ### What files say -/

theorem eagerSource_inj {kind : EntityKind}
    (h : eagerSource kind m = eagerSource kind n) : m = n := by
  have hlist := congrArg String.toList h
  cases kind with
  | event =>
    simp only [eagerSource, String.toList_append] at hlist
    exact String.toList_inj.1 (List.append_cancel_left hlist)
  | object =>
    simp only [eagerSource, String.toList_append] at hlist
    exact String.toList_inj.1 (List.append_cancel_left hlist)

/-- The module of an entity takes late what its file lists. -/
theorem late_of_madeOf {e : Entity} {m : EntityModule} (hm : m.MadeOf p e) (package : String) :
    (PackageModule.ofEntity p package e).late = lateBindings m.late :=
  congrArg lateBindings hm.late.symm

/-- The module of an entity imports at once what its file does. -/
theorem mem_eager_of_madeOf {e : Entity} {m : EntityModule} (hm : m.MadeOf p e) :
    n ∈ (PackageModule.ofEntity p package e).eager ↔ ∃ own, eagerSource e.kind own ∈ m.eager.names ∧
      n = inPackage package (inPackage objectsPackage own) := by
  rw [hm.eager, eagerImports_eq]
  simp only [mem_names_importsBy_linksOf, Link.eagerSource?_eq_some]
  constructor
  · intro h
    obtain ⟨⟨link, target⟩, hlink, hn⟩ := List.mem_filterMap.1 h
    obtain ⟨object, ha, hobject, hkind⟩ := mem_linksOf.1 hlink
    cases link with
    | eager source =>
      have hsource := (linkOf_eq_eager_iff.1 hkind.symm).2
      exact ⟨moduleOf target, ⟨object, target, ha, hobject, hsource ▸ hkind.symm⟩,
        (Option.some.inj hn).symm⟩
    | _ => cases hn
  · rintro ⟨own, ⟨object, target, ha, hobject, hlink⟩, rfl⟩
    have hown : own = moduleOf target := eagerSource_inj (linkOf_eq_eager_iff.1 hlink).2
    rw [hown] at hlink ⊢
    exact List.mem_filterMap.2 ⟨(.eager (eagerSource e.kind (moduleOf target)), target),
      mem_linksOf.2 ⟨object, ha, hobject, hlink.symm⟩, rfl⟩

/-! ### A package in a library -/

/-- A library holds a plan as a package: under the names of the package it has the modules of the
plan. -/
def Library.Holds (library : Library) (p : Plan) (package : String) : Prop :=
  ∀ n, Belongs package n → library.get? n = (p.modules package).get? n

/-- What is loaded with a module of a plan belongs to the package. -/
theorem belongs_of_mem_eager (h : (p.modules package).get? m = some module)
    (hn : n ∈ module.eager) :
    Belongs package n := by
  rcases cases_of_get?_modules h with heq | ⟨f, -, heq⟩ | ⟨folder, own, content, hmodule, -, -, rfl⟩
  · obtain ⟨-, rfl⟩ := Prod.mk.inj heq
    obtain ⟨name, -, rfl⟩ := List.mem_map.1 hn
    exact belongs_inPackage package name
  · obtain ⟨-, rfl⟩ := Prod.mk.inj heq
    rcases List.mem_cons.1 hn with rfl | hn
    · exact .inl rfl
    · obtain ⟨i, -, rfl⟩ := List.mem_map.1 hn
      exact belongs_inPackage package _
  · rcases List.mem_cons.1 hn with rfl | hn
    · exact .inl rfl
    rcases List.mem_cons.1 hn with rfl | hn
    · exact belongs_inPackage package folder
    · obtain ⟨target, -, rfl⟩ := exists_target_of_mem_eager hmodule hn
      exact belongs_inPackage package _

/-- A module that takes names late is one of an entity, and the names come from the sub-package
around it. -/
theorem exists_hasModule_of_late (h : (p.modules package).get? m = some module)
    (hb : b ∈ module.late) :
    ∃ folder own content, p.HasModule package folder own content ∧ module.late = content.late ∧
      siblingOf m b = inPackage package (inPackage folder b.sibling) := by
  rcases cases_of_get?_modules h with heq | ⟨f, -, heq⟩ |
    ⟨folder, own, content, hmodule, hdot, rfl, rfl⟩
  · obtain ⟨-, rfl⟩ := Prod.mk.inj heq
    exact absurd hb List.not_mem_nil
  · obtain ⟨-, rfl⟩ := Prod.mk.inj heq
    exact absurd hb List.not_mem_nil
  · have hassoc (name : String) :
        inPackage package (inPackage folder name) = inPackage (inPackage package folder) name := by
      simp only [inPackage, String.append_assoc]
    refine ⟨folder, own, content, hmodule, rfl, ?_⟩
    rw [siblingOf, hassoc, enclosing_inPackage hdot, ← hassoc]

/-- A library that holds a plan answers for the modules of the plan. -/
theorem Library.Holds.eagerOf_eq (h : library.Holds p package)
    (hmodule : (p.modules package).get? (inPackage package n) = some module) :
    eagerOf library (inPackage package n) = module.eager ∧
    lateOf library (inPackage package n) = module.late := by
  rw [eagerOf, lateOf, h _ (belongs_inPackage package n), hmodule]
  exact ⟨rfl, rfl⟩

/-- A library follows the files of entities: what is loaded with their modules are the packages
around them and what the files import at once, and the names that they take late are those that the
files list. -/
structure Library.FollowsFiles (library : Library) (p : Plan) (package : String) : Prop where
  /-- What is loaded with a module. -/
  eager : ∀ folder e m, p.HasModule package folder (moduleOf e) (.ofEntity p package e) →
    '.' ∉ (moduleOf e).toList → EntityModule.of p e = .ok m → ∀ n,
    n ∈ eagerOf library (inPackage package (inPackage folder (moduleOf e))) ↔
      n = package ∨ n = inPackage package folder ∨ ∃ own, eagerSource e.kind own ∈ m.eager.names ∧
        n = inPackage package (inPackage objectsPackage own)
  /-- What it takes late. -/
  late : ∀ folder e m, p.HasModule package folder (moduleOf e) (.ofEntity p package e) →
    '.' ∉ (moduleOf e).toList → EntityModule.of p e = .ok m →
    lateOf library (inPackage package (inPackage folder (moduleOf e))) = lateBindings m.late

/-- A library that holds a plan follows its files. -/
theorem followsFiles_of_holds (h : library.Holds p package)
    (hobjects : Distinguished p.objects.values) (hevents : Distinguished p.events.values) :
    library.FollowsFiles p package where
  eager folder e m hown hdot hm n := by
    rw [(h.eagerOf_eq (get?_modules hobjects hevents hown hdot)).1, List.mem_cons, List.mem_cons,
      mem_eager_of_madeOf (EntityModule.madeOf hm)]
  late folder e m hown hdot hm := by
    rw [(h.eagerOf_eq (get?_modules hobjects hevents hown hdot)).2]
    exact late_of_madeOf (EntityModule.madeOf hm) package

/-- A name that is taken late is one that a module of the plan takes late. -/
theorem Library.Holds.mem_lateOf (h : library.Holds p package) (hm : Belongs package m)
    (hb : b ∈ lateOf library m) :
    ∃ module, (p.modules package).get? m = some module ∧ b ∈ module.late ∧
    lateOf library m = module.late := by
  rw [lateOf, h m hm] at hb
  cases hget : (p.modules package).get? m with
  | none =>
    rw [hget] at hb
    exact absurd hb List.not_mem_nil
  | some module =>
    rw [hget] at hb
    exact ⟨module, rfl, hb, by rw [lateOf, h m hm, hget]; rfl⟩

/-- The modules of a plan ask for none outside of it. -/
theorem encloses_of_holds (h : library.Holds p package) : library.Encloses package where
  eager m hm n hn := by
    rw [eagerOf, h m hm] at hn
    cases hget : (p.modules package).get? m with
    | none =>
      rw [hget] at hn
      exact absurd hn List.not_mem_nil
    | some module =>
      rw [hget] at hn
      exact belongs_of_mem_eager hget hn
  source m hm b hb := by
    obtain ⟨module, hget, hb, -⟩ := h.mem_lateOf (.inr hm) hb
    obtain ⟨folder, own, content, -, -, hsource⟩ := exists_hasModule_of_late hget hb
    rw [hsource]
    exact isWithin_inPackage package _
  nodup m hm := by
    cases hlate : lateOf library m with
    | nil => exact List.nodup_nil
    | cons b bs =>
      obtain ⟨module, hget, hb, heq⟩ := h.mem_lateOf (.inr hm) (hlate ▸ List.mem_cons_self)
      obtain ⟨folder, own, content, hmodule, hcontent, -⟩ := exists_hasModule_of_late hget hb
      rw [← hlate, heq, hcontent]
      exact nodup_late hmodule

/-! ### Nothing is missing -/

/-- The files of all modules of a plan are modules: no name has a dot of its own. -/
structure Plan.Importable (p : Plan) : Prop where
  /-- Modules of objects and event classes. -/
  entities : ∀ e ∈ p.objects.values ++ p.events.values, '.' ∉ (moduleOf e).toList
  /-- Modules of enumerations. -/
  enums : ∀ name ∈ p.enums.names, '.' ∉ name.toList

theorem Plan.Importable.dot_not_mem (hp : p.Importable)
    (h : p.HasModule package folder own content) :
    '.' ∉ own.toList := by
  cases h with
  | object he => exact hp.entities _ (List.mem_append_left _ he)
  | event he => exact hp.entities _ (List.mem_append_right _ he)
  | enum he => exact hp.enums own (Table.mem_names_iff.2 ⟨_, he⟩)

/-- A barrel imports modules of its sub-package. -/
theorem exists_hasModule_of_mem_imports (horder : p.order.Perm p.objects.names)
    (hf : f ∈ p.folders package) {i : String × List String} (hi : i ∈ f.barrel.imports) :
    ∃ content, p.HasModule package f.name i.1 content := by
  simp only [Plan.folders, List.mem_cons, List.not_mem_nil, or_false] at hf
  rcases hf with rfl | rfl | rfl
  · obtain ⟨e, he, heq⟩ := List.mem_map.1 hi
    obtain ⟨hmodule, -⟩ := Prod.mk.inj heq
    rw [← hmodule]
    exact ⟨_, .object ((perm_values_of_order horder).mem_iff.1 (List.mem_filter.1 he).1)⟩
  · obtain ⟨e, he, heq⟩ := List.mem_map.1 hi
    obtain ⟨hmodule, -⟩ := Prod.mk.inj heq
    rw [← hmodule]
    exact ⟨_, .event he⟩
  · obtain ⟨⟨name, e⟩, he, heq⟩ := List.mem_map.1 hi
    obtain ⟨hmodule, -⟩ := Prod.mk.inj heq
    rw [← hmodule]
    exact ⟨_, .enum (Table.get?_eq_some_iff.2 he)⟩

/-- What is loaded with a module of a plan is there. -/
theorem mem_names_of_mem_eager (hp : p.Importable) (horder : p.order.Perm p.objects.names)
    (h : (p.modules package).get? m = some module) (hn : n ∈ module.eager) :
    n ∈ (p.modules package).names := by
  rcases cases_of_get?_modules h with heq | ⟨f, hf, heq⟩ |
    ⟨folder, own, content, hmodule, -, -, rfl⟩
  · obtain ⟨-, rfl⟩ := Prod.mk.inj heq
    have hfolder : ∀ name ∈ [enumsPackage, eventsPackage, objectsPackage], ∃ f ∈ p.folders package,
        f.name = name := by
      simp [Plan.folders]
    obtain ⟨name, hname, rfl⟩ := List.mem_map.1 hn
    obtain ⟨f, hf, rfl⟩ := hfolder name hname
    exact mem_names_folder hf
  · obtain ⟨-, rfl⟩ := Prod.mk.inj heq
    rcases List.mem_cons.1 hn with rfl | hn
    · exact mem_names_root p _
    · obtain ⟨i, hi, rfl⟩ := List.mem_map.1 hn
      obtain ⟨content, hcontent⟩ := exists_hasModule_of_mem_imports horder hf hi
      exact mem_names_module hcontent (hp.dot_not_mem hcontent)
  · rcases List.mem_cons.1 hn with rfl | hn
    · exact mem_names_root p _
    rcases List.mem_cons.1 hn with rfl | hn
    · obtain ⟨f, hf, rfl, -⟩ := exists_folder hmodule
      exact mem_names_folder hf
    · obtain ⟨target, htarget, rfl⟩ := exists_target_of_mem_eager hmodule hn
      have htarget : p.HasModule package objectsPackage (moduleOf target) _ := .object htarget
      exact mem_names_module htarget (hp.dot_not_mem htarget)

/-- Every module of a plan can be loaded. -/
theorem exists_load_ok (hlib : library.Holds p package) (hp : p.Importable)
    (horder : p.order.Perm p.objects.names) (hm : m ∈ (p.modules package).names)
    (hbelongs : Belongs package m) (s : Loader) :
    ∃ t, s.load library m = .ok t := by
  refine ⟨_, Loader.load_eq_ok_iff.2 ⟨fun n hn ↦ ?_, rfl⟩⟩
  -- what is loaded belongs to the package and is one of its modules
  obtain ⟨hbelongs, hn⟩ : Belongs package n ∧ n ∈ (p.modules package).names := by
    refine Loader.of_mem_foundBy (C := fun n ↦ Belongs package n ∧ n ∈ (p.modules package).names)
      (fun v hv w hw ↦ ?_) ⟨hbelongs, hm⟩ hn
    obtain ⟨module, hmodule⟩ := Table.mem_names_iff.1 hv.2
    rw [eagerOf, hlib v hv.1, hmodule] at hw
    exact ⟨belongs_of_mem_eager hmodule hw, mem_names_of_mem_eager hp horder hmodule hw⟩
  rw [Table.mem_names_iff, hlib n hbelongs]
  exact Table.mem_names_iff.1 hn

/-- Late names of an entity are names of planned objects, and the entity is an object itself. -/
theorem exists_target_of_mem_ofEntity {e : Entity}
    (hb : b ∈ (PackageModule.ofEntity p package e).late) :
    e.kind = .object ∧ ∃ target ∈ p.objects.values, b.sibling = moduleOf target ∧
      b.exported ∈ [target.typeName, dictName target] := by
  have hlists := mem_of_mem_lateBindings hb
  rw [lateImports_eq, lists_importsBy_linksOf] at hlists
  obtain ⟨object, target, -, htarget, hlink, hbinding⟩ := hlists
  obtain ⟨hkind, -, -, hsibling⟩ := linkOf_eq_late_iff.1 (Link.lateSource?_eq_some.1 hlink)
  refine ⟨hkind, target, Table.mem_values_iff.2 ⟨object, htarget⟩, hsibling, ?_⟩
  obtain ⟨name, hname, heq⟩ := List.mem_map.1 hbinding
  exact (Binding.mk.inj heq).1 ▸ hname

/-- Late names come from modules of planned objects. -/
theorem exists_target_of_mem_late (hp : p.Linkable) (h : p.HasModule package folder own content)
    (hb : b ∈ content.late) : folder = objectsPackage ∧ ∃ target ∈ p.objects.values,
      b.sibling = moduleOf target ∧ b.exported ∈ [target.typeName, dictName target] := by
  cases h with
  | object he => exact ⟨rfl, (exists_target_of_mem_ofEntity hb).2⟩
  | event he =>
    -- an event class is no object
    have hkind := (exists_target_of_mem_ofEntity hb).1
    rw [hp.events _ he] at hkind
    cases hkind
  | enum he => exact absurd hb List.not_mem_nil

/-- A name that a module of a package takes late can be bound. -/
theorem exists_bindName_ok (hlib : library.Holds p package) (hp : p.Linkable)
    (hevents : Distinguished p.events.values) (himportable : p.Importable)
    (hm : isWithin package m = true) (hb : b ∈ lateOf library m) (s : Loader) :
    ∃ t, s.bindName library m b = .ok t := by
  obtain ⟨module, hmodule, hb, -⟩ := hlib.mem_lateOf (.inr hm) hb
  obtain ⟨folder, own, content, hown, hlate, hsource⟩ := exists_hasModule_of_late hmodule hb
  obtain ⟨rfl, target, htarget, hsibling, hexported⟩ :=
    exists_target_of_mem_late hp hown (hlate ▸ hb)
  have hobject : p.HasModule package objectsPackage (moduleOf target) _ := .object htarget
  have hfound := get?_modules hp.distinct hevents hobject (himportable.dot_not_mem hobject)
  rw [← hsibling, ← hsource] at hfound
  have hbelongs : Belongs package (siblingOf m b) := hsource ▸ belongs_inPackage package _
  obtain ⟨t, ht⟩ :=
    exists_load_ok hlib himportable hp.complete (Table.mem_names_iff.2 ⟨_, hfound⟩) hbelongs s
  have hmem : b.exported ∈ definedBy library (siblingOf m b) := by
    rw [definedBy, hlib _ hbelongs, hfound]
    exact hexported
  refine ⟨{ t with names := ⟨m, b.localName, siblingOf m b, b.exported⟩ :: t.names }, ?_⟩
  rw [Loader.bindName, ht]
  exact if_pos (List.contains_iff_mem.2 hmem)

/-- A module of a package can be given its names. -/
theorem exists_bindModule_ok (hlib : library.Holds p package) (hp : p.Linkable)
    (hevents : Distinguished p.events.values) (himportable : p.Importable)
    (hm : isWithin package m = true) (s : Loader) : ∃ t, s.bindModule library m = .ok t := by
  obtain ⟨t, ht⟩ :=
    Loader.exists_foldlM_ok (fun _ hb ↦ exists_bindName_ok hlib hp hevents himportable hm hb) s
  exact ⟨{ t with settled := t.settled ++ [m] }, by rw [Loader.bindModule, ht]; rfl⟩

end EventSchema.Package
