import EventSchema.Proofs.Package.Linking
import EventSchema.Proofs.Package.Places

/-!
# Binding version packages

Packages of different versions in one place have no module in common, so a library may hold them
side by side (`holds_beside`). Binding one of them comes to an end with all its loaded modules given
their names, and leaves the others as they were (`bindsPackage_of_plan`).
-/

namespace EventSchema.Package

variable {p : Plan} {library : Library} {package m n : String} {s : Loader} {module : PackageModule}

/-! ### Packages side by side -/

/-- A library with the modules of two libraries. -/
def Library.beside (library other : Library) : Library := .ofList (library.entries ++ other.entries)

theorem get?_beside {other : Library} (h : ∀ n ∈ library.names, n ∉ other.names) :
    (library.beside other).get? n = some module ↔ library.get? n = some module ∨
    other.get? n = some module := by
  have hmem {content : PackageModule} : (n, content) ∈ library.entries ++ other.entries ↔
      library.get? n = some content ∨ other.get? n = some content := by
    rw [List.mem_append, Table.get?_eq_some_iff, Table.get?_eq_some_iff]
  refine ⟨fun hn ↦ hmem.1 (Table.mem_of_get?_ofList hn),
    fun hn ↦ Table.get?_ofList (hmem.2 hn) fun content hc ↦ ?_⟩
  -- a name stands in one of the libraries, and there once
  rcases hn with hn | hn <;> rcases hmem.1 hc with hc | hc
  · exact Option.some.inj (hc.symm.trans hn)
  · exact absurd (Table.mem_names_iff.2 ⟨_, hc⟩) (h n (Table.mem_names_iff.2 ⟨_, hn⟩))
  · exact absurd (Table.mem_names_iff.2 ⟨_, hn⟩) (h n (Table.mem_names_iff.2 ⟨_, hc⟩))
  · exact Option.some.inj (hc.symm.trans hn)

theorem belongs_of_mem_names (h : n ∈ (p.modules package).names) : Belongs package n := by
  obtain ⟨module, hmodule⟩ := Table.mem_names_iff.1 h
  rcases cases_of_get?_modules hmodule with heq | ⟨f, -, heq⟩ | ⟨folder, own, content, -, -, rfl, -⟩
  · exact .inl (Prod.mk.inj heq).1
  · rw [(Prod.mk.inj heq).1]
    exact belongs_inPackage package _
  · exact belongs_inPackage package _

/-- A library may hold packages that have no module in common. -/
theorem holds_beside {q : Plan} {other : String} (h : ∀ n, Belongs package n → ¬ Belongs other n) :
    ((p.modules package).beside (q.modules other)).Holds p package ∧
      ((p.modules package).beside (q.modules other)).Holds q other := by
  have hget {n : String} {module : PackageModule} :
      ((p.modules package).beside (q.modules other)).get? n = some module ↔
        (p.modules package).get? n = some module ∨ (q.modules other).get? n = some module :=
    get?_beside fun n hn hn' ↦ h n (belongs_of_mem_names hn) (belongs_of_mem_names hn')
  refine ⟨fun n hn ↦ Option.ext fun module ↦ hget.trans (or_iff_left fun hmodule ↦ ?_),
    fun n hn ↦ Option.ext fun module ↦ hget.trans (or_iff_right fun hmodule ↦ ?_)⟩
  · exact h n hn (belongs_of_mem_names (Table.mem_names_iff.2 ⟨module, hmodule⟩))
  · exact h n (belongs_of_mem_names (Table.mem_names_iff.2 ⟨module, hmodule⟩)) hn

theorem dot_not_mem_of_slugOf {version : Json} {slug : String} (h : slugOf version = .ok slug) :
    '.' ∉ slug.toList := by
  cases version with
  | str text =>
    cases h
    obtain ⟨cs, hslug, hdot⟩ := Identifier.toList_versionSlug text
    rw [hslug]
    exact fun hmem ↦ (List.mem_cons.1 hmem).elim (by decide) hdot
  | _ => cases h

/-! ### Binding a version package -/

/-- What it comes to to bind the version package of a module, when the package holds a plan and its
name ends with a name of a version. -/
structure Loader.BindsPackage (library : Library) (p : Plan) (place slug module : String)
    (s : Loader) : Prop where
  /-- What is loaded with the modules of entities, and what they take late, is what their files
  say. -/
  written : library.FollowsFiles p (place ++ slug)
  /-- Binding ends, and no number of rounds beyond the number of modules makes a difference. -/
  ends : s.bind library module ≠ .error .unfinished ∧ ∀ rounds, library.size < rounds →
    s.bindRounds library (place ++ slug) rounds = s.bind library module
  /-- When it returns, every loaded module of the package has all its names, and another call
  changes nothing. -/
  settles : ∀ t, s.bind library module = .ok t → s.Settles library (place ++ slug) t
  /-- Modules of the packages of other versions beside it are neither loaded nor given names. -/
  others : ∀ t, s.bind library module = .ok t → ∀ version other, slugOf version = .ok other →
    other ≠ slug →
    ∀ m, Belongs (place ++ other) m → (m ∈ t.loaded ↔ m ∈ s.loaded) ∧
      (m ∈ t.settled ↔ m ∈ s.settled) ∧ ∀ name, t.boundTo? m name = s.boundTo? m name
  /-- Calls from states with the same loaded modules leave the same loaded modules, in whatever
  order these were loaded and whatever was bound before. -/
  order : ∀ t, s.bind library module = .ok t → s.ImportsLoaded library →
    ∀ s' t' : Loader, ∀ module',
    versionPackage module' = place ++ slug → s'.Sound library (place ++ slug) →
    s'.ImportsLoaded library →
    (∀ m, m ∈ s.loaded ↔ m ∈ s'.loaded) → s'.bind library module' = .ok t' →
    ∀ m, m ∈ t.loaded ↔ m ∈ t'.loaded
  /-- It returns if all files of the package are modules. -/
  returns : p.schema.Keyed → p.Importable → ∃ t, s.bind library module = .ok t

/-- **Every loaded module gets its names.** In a library that holds the plan of a schema as the
package of the version of the schema, where modules are loaded and take names late as their files
say, and from any loaded modules where those that count as settled have their names, binding the
version package of a module ends. When it returns, every loaded module of the package has each of
its late names from the module beside it that it is listed with, modules that were loaded on the way
among them; modules of the packages of other versions are as they were, and another call changes
nothing. It returns unless the name of a file keeps it from being a module. -/
theorem bindsPackage_of_plan {schema : Schema} {d : Deferral} {place slug : String}
    (hplan : plan schema d = .ok p) (hslug : slugOf schema.version = .ok slug)
    (hlib : library.Holds p (place ++ slug)) (hmodule : versionPackage m = place ++ slug)
    (hs : s.Sound library (place ++ slug)) : s.BindsPackage library p place slug m := by
  have hencloses := encloses_of_holds hlib
  have houtcome {u : Loader} {n : String} (hn : versionPackage n = place ++ slug) :
      u.Outcome library (place ++ slug) (u.bind library n) := by
    rw [← hn] at hencloses ⊢
    exact Loader.outcome_bind hencloses u
  have hsettles {u v : Loader} {n : String} (hn : versionPackage n = place ++ slug)
      (hu : u.Sound library (place ++ slug)) (hv : u.bind library n = .ok v) :
      u.Settles library (place ++ slug) v :=
    (houtcome hn).settles hu hv
  obtain ⟨-, hobjects, hevents, -⟩ := checked_of_plan hplan
  constructor
  case written => exact followsFiles_of_holds hlib hobjects hevents
  case ends => exact ⟨(houtcome hmodule).ends, fun _ ↦ (houtcome hmodule).bindRounds_eq⟩
  case settles => exact fun t ↦ hsettles hmodule hs
  case others =>
    intro t ht version other hother hne n hn
    have hadds := (hsettles hmodule hs ht).adds
    have hnot :=
      not_belongs_of_ne (dot_not_mem_of_slugOf hslug) (dot_not_mem_of_slugOf hother) hne hn
    have hwithin : isWithin (place ++ slug) n = false := Bool.eq_false_iff.2 fun h ↦ hnot (.inr h)
    refine ⟨⟨fun h ↦ (hadds.belongs n h).resolve_right hnot, fun h ↦ hadds.loaded h⟩, ⟨fun h ↦ ?_,
      fun h ↦ hadds.settled h⟩, hadds.apart n hwithin⟩
    exact (hadds.binds n h).resolve_right fun h ↦ hnot (.inr h.1)
  case order =>
    intro t ht himports s' t' module' hmodule' hs' himports' hloaded ht' n
    have hone := hsettles hmodule hs ht
    have htwo := hsettles hmodule' hs' ht'
    exact ⟨fun h ↦ hone.mem_loaded_of_subset htwo himports' (fun n ↦ (hloaded n).1) h,
      fun h ↦ htwo.mem_loaded_of_subset hone himports (fun n ↦ (hloaded n).2) h⟩
  case returns =>
    intro hkeyed himportable
    have hlinkable := Plan.linkable ((plan_eq_ok_iff.1 hplan).schema ▸ hkeyed) hplan
    exact (houtcome hmodule).succeeds fun n hn u ↦
      exists_bindModule_ok hlib hlinkable hevents himportable hn u

/-- The files of users and groups are modules. -/
theorem importable_of_groupSchema (h : plan groupSchema userGroupsLate = .ok p) :
    p.objects = groupSchema.objects ∧ p.Importable := by
  have hp := plan_eq_ok_iff.1 h
  have hplanned : p.objects = groupSchema.objects :=
    (Except.ok.inj (plannedObjects_groupSchema.symm.trans hp.objects)).symm
  refine ⟨hplanned, ?_, fun name hname ↦ ?_⟩
  · rw [hp.events, hplanned, plannedEvents_groupSchema]
    decide +kernel
  · have hnone : plannedEnums groupSchema .empty = .ok .empty := plannedEnums_of_empty rfl rfl
    have henums := hp.enums
    rw [plannedEvents_groupSchema, hnone] at henums
    rw [← Except.ok.inj henums] at hname
    exact absurd hname List.not_mem_nil

/-- In every package with users and groups the module of users takes the name of groups late. -/
theorem get?_modules_of_users (h : plan groupSchema userGroupsLate = .ok p) (package : String) :
    ∃ module, (p.modules package).get? (inPackage package "objects.user") = some module ∧
      ⟨"Group", "group", "Group"⟩ ∈ module.late := by
  obtain ⟨hobjects, himportable⟩ := importable_of_groupSchema h
  obtain ⟨-, hdistinct, hevents, -⟩ := checked_of_plan h
  let user := entityOf (refers "user" "group" true)
  have huser : p.HasModule package objectsPackage (moduleOf user) (.ofEntity p package user) := by
    refine .object ?_
    rw [hobjects]
    exact List.mem_cons_of_mem _ List.mem_cons_self
  have hname : inPackage objectsPackage (moduleOf user) = "objects.user" := by decide +kernel
  have hget := get?_modules hdistinct hevents huser (himportable.dot_not_mem huser)
  rw [hname] at hget
  have hlate : ⟨"Group", "group", "Group"⟩ ∈ lateBindings
      (lateImports user (linksOf p.objects p.deferral user)) := by
    rw [hobjects, (plan_eq_ok_iff.1 h).deferral]
    decide +kernel
  exact ⟨_, hget, hlate⟩

/-- With the packages of two versions side by side and users loaded from both, the names of groups
are bound in the package of the one version alone. That the call returns rests on the schema having
been read. -/
theorem bindsPackage_of_users : (Catalog.read userTree ⟨"", []⟩).outcome.1 = .ok groupsFirst ∧
    groupsFirst.resolve.outcome.1 = .ok groupSchema ∧
    ∃ (p : Plan) (library : Library) (s t : Loader),
    plan groupSchema userGroupsLate = .ok p ∧ slugOf groupSchema.version = .ok "v1_7" ∧
    library.Holds p "models.v1_7" ∧ library.Holds p "models.v1_70" ∧
    versionPackage "models.v1_7.objects.user" = "models.v1_7" ∧ s.Sound library "models.v1_7" ∧
    s.BindsPackage library p "models." "v1_7" "models.v1_7.objects.user" ∧
    "models.v1_7.objects.user" ∈ s.loaded ∧ "models.v1_70.objects.user" ∈ s.loaded ∧
    s.bind library "models.v1_7.objects.user" = .ok t ∧
    t.boundTo? "models.v1_7.objects.user" "Group" = some ("models.v1_7.objects.group", "Group") ∧
    t.boundTo? "models.v1_70.objects.user" "Group" = none := by
  obtain ⟨p, hplan⟩ := exists_plan_groupSchema
  have himportable := (importable_of_groupSchema hplan).2
  have hcomplete := (Plan.linkable keyed_groupSchema hplan).complete
  have hslug {version slug : String} (h : Identifier.versionSlug version = slug) :
      slugOf (.str version) = .ok slug := congrArg Except.ok h
  have hversion : slugOf groupSchema.version = .ok "v1_7" := hslug (by decide +kernel)
  have hapart : ∀ n, Belongs "models.v1_7" n → ¬ Belongs "models.v1_70" n := by
    intro n hn
    change Belongs ("models." ++ "v1_7") n at hn
    change ¬ Belongs ("models." ++ "v1_70") n
    exact not_belongs_of_ne (by decide) (by decide) (by decide) hn
  obtain ⟨hlib, hlib'⟩ := holds_beside (p := p) (q := p) hapart
  generalize (p.modules "models.v1_7").beside (p.modules "models.v1_70") = library at hlib hlib'
  -- users of both versions are loaded
  have hbelongs := belongs_inPackage "models.v1_7" "objects.user"
  have hbelongs' := belongs_inPackage "models.v1_70" "objects.user"
  obtain ⟨module, hmodule, hmem⟩ := get?_modules_of_users hplan "models.v1_7"
  obtain ⟨module', hmodule', -⟩ := get?_modules_of_users hplan "models.v1_70"
  obtain ⟨r, hr⟩ := exists_load_ok hlib himportable hcomplete
    (Table.mem_names_iff.2 ⟨_, hmodule⟩) hbelongs ⟨[], [], []⟩
  obtain ⟨s, hs⟩ :=
    exists_load_ok hlib' himportable hcomplete (Table.mem_names_iff.2 ⟨_, hmodule'⟩) hbelongs' r
  have hreached : s.Reached library := (Loader.Reached.start.load hr).load hs
  have hsound := hreached.sound.2 "models.v1_7"
  have hloaded : inPackage "models.v1_7" "objects.user" ∈ s.loaded := by
    rw [(Loader.load_eq_ok_iff.1 hs).2]
    exact List.mem_append_left _ (Loader.mem_loaded_of_load hr)
  have hnames : s.names = [] := by
    rw [(Loader.load_eq_ok_iff.1 hs).2, (Loader.load_eq_ok_iff.1 hr).2]
  -- the names of groups are bound in the package of the one version
  have hpackage : versionPackage "models.v1_7.objects.user" = "models.v1_7" := by decide +kernel
  have hbinds : s.BindsPackage library p "models." "v1_7" "models.v1_7.objects.user" :=
    bindsPackage_of_plan hplan hversion hlib hpackage hsound
  obtain ⟨t, ht⟩ := hbinds.returns ((plan_eq_ok_iff.1 hplan).schema ▸ keyed_groupSchema) himportable
  have hlate :
      ⟨"Group", "group", "Group"⟩ ∈ lateOf library (inPackage "models.v1_7" "objects.user") := by
    rw [lateOf, hlib _ hbelongs, hmodule]
    exact hmem
  have hsettles := hbinds.settles t ht
  have hbound := hsettles.bound _ (hsettles.adds.loaded hloaded) (isWithin_inPackage _ _) _ hlate
  have hsource : siblingOf "models.v1_7.objects.user" ⟨"Group", "group", "Group"⟩ =
      "models.v1_7.objects.group" := by
    decide +kernel
  have hother :=
    hbinds.others t ht (.str "1.70.0") "v1_70" (hslug (by decide +kernel)) (by decide) _ hbelongs'
  refine ⟨read_userTree, resolve_groupsFirst, p, library, s, t, hplan, hversion, hlib, hlib',
    hpackage, hsound, hbinds, hloaded, Loader.mem_loaded_of_load hs, ht, hsource ▸ hbound.bound,
    (hother.2.2 "Group").trans ?_⟩
  rw [Loader.boundTo?, hnames]
  rfl

end EventSchema.Package
