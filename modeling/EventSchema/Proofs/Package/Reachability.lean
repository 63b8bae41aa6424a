import EventSchema.Proofs.Package.FirstOrder

/-!
# What a package holds

The event classes of a package are those that are not hidden. Its objects are those that are not
hidden and all that can be reached from these and from its event classes over references
(`comprises_of_plan`), so a hidden object has a module exactly if something that is not hidden
refers to it, at once or over other hidden objects. The barrel of the objects exports those that are
not hidden.
-/

namespace EventSchema.Package

open Relation

variable {s : Schema} {d : Deferral} {p : Plan} {objects : Table Entity}
  {planned pending found : List String} {m n : String}

/-! ### Names that are reached -/

/-- The object of one name refers to the other name. -/
def LeadsTo (objects : Table Entity) (m n : String) : Prop :=
  ∃ e, objects.get? m = some e ∧ n ∈ e.references

/-- What is found was planned, or is reached from what was pending. -/
theorem Visits.reached (h : Visits objects planned pending (.ok found)) :
    ∀ n ∈ found, n ∈ planned ∨ ∃ m ∈ pending, ReflTransGen (LeadsTo objects) m n := by
  generalize houtcome : Except.ok found = outcome at h
  induction h with
  | done =>
    cases houtcome
    exact fun n hn ↦ .inl hn
  | skip _ _ ih =>
    refine fun n hn ↦ (ih houtcome n hn).imp_right fun ⟨m, hm, hpath⟩ ↦ ?_
    exact ⟨m, List.mem_cons_of_mem _ hm, hpath⟩
  | @visit planned pending name e _ _ he _ ih =>
    intro n hn
    rcases ih houtcome n hn with hplanned | ⟨m, hm, hpath⟩
    · rcases List.mem_append.1 hplanned with hplanned | hname
      · exact .inl hplanned
      · exact .inr ⟨name, List.mem_cons_self, List.mem_singleton.1 hname ▸ .refl⟩
    · rcases List.mem_append.1 hm with href | hm
      · exact .inr ⟨name, List.mem_cons_self, .head ⟨e, he, List.mem_reverse.1 href⟩ hpath⟩
      · exact .inr ⟨m, List.mem_cons_of_mem _ hm, hpath⟩
  | undefined => cases houtcome

/-- From nothing planned, exactly what is reached from the pending names is found. -/
theorem Visits.mem_iff (h : Visits objects [] pending (.ok found)) :
    n ∈ found ↔ ∃ m ∈ pending, ReflTransGen (LeadsTo objects) m n := by
  constructor
  · exact fun hn ↦ (h.reached n hn).resolve_left List.not_mem_nil
  · rintro ⟨m, hm, hpath⟩
    induction hpath with
    | refl => exact h.mem_of_pending hm
    | tail _ hstep ih =>
      obtain ⟨e, he, hn⟩ := hstep
      exact h.closed (fun _ hmem ↦ absurd hmem List.not_mem_nil) _ ih e he _ hn

/-- The planned objects are those that are reached from names that are planned by themselves. -/
theorem get?_plannedObjects_iff (h : plannedObjects s (plannedEvents s) = .ok objects)
    {e : Entity} :
    objects.get? n = some e ↔
      s.objects.get? n = some e ∧ ∃ root, IsRoot s root ∧
      ReflTransGen (LeadsTo s.objects) root n := by
  obtain ⟨outcome, hvisits, hplanned⟩ := visits_plannedRoots s (plannedEvents s)
  rw [h] at hplanned
  cases outcome with
  | error x => cases hplanned
  | ok found =>
    rw [Except.ok.inj hplanned, get?_planned, hvisits.mem_iff]
    simp only [List.mem_reverse, mem_plannedRoots]

/-! ### Hidden objects -/

/-- Something of the package that is not hidden refers to a name. -/
inductive IsReferred (s : Schema) : String → Prop where
  /-- An object that is not hidden. -/
  | object {m n : String} {e : Entity} (he : s.objects.get? m = some e)
      (hshown : e.isHidden = false) (hn : n ∈ e.references) : IsReferred s n
  /-- An event class that is not hidden. -/
  | event {c n : String} {e : Entity} (he : s.events.get? c = some e) (hshown : e.isHidden = false)
      (hn : n ∈ e.references) : IsReferred s n

/-- The hidden object of one name refers to the other name. -/
def HiddenLeadsTo (objects : Table Entity) (m n : String) : Prop :=
  ∃ e, objects.get? m = some e ∧ e.isHidden = true ∧ n ∈ e.references

theorem HiddenLeadsTo.leadsTo (h : HiddenLeadsTo objects m n) : LeadsTo objects m n :=
  let ⟨e, he, _, hn⟩ := h
  ⟨e, he, hn⟩

/-- What is reached is an object that is not hidden, or something that is not hidden refers to it at
once or over hidden objects. -/
theorem shown_or_referred {root : String} (hroot : IsRoot s root)
    (hpath : ReflTransGen (LeadsTo s.objects) root n) :
    (∃ e, s.objects.get? n = some e ∧ e.isHidden = false) ∨
      ∃ m, IsReferred s m ∧ ReflTransGen (HiddenLeadsTo s.objects) m n := by
  induction hpath with
  | refl =>
    cases hroot with
    | object he hshown => exact .inl ⟨_, he, hshown⟩
    | event he hshown hn => exact .inr ⟨root, .event he hshown hn, .refl⟩
  | @tail m n _ hstep ih =>
    obtain ⟨e, he, hn⟩ := hstep
    cases hhidden : e.isHidden with
    | false => exact .inr ⟨n, .object he hhidden hn, .refl⟩
    | true =>
      -- a hidden object was not reached as one that is not hidden
      rcases ih with ⟨f, hf, hshown⟩ | ⟨first, hfirst, hpath⟩
      · rw [he] at hf
        cases hf
        rw [hhidden] at hshown
        cases hshown
      · exact .inr ⟨first, hfirst, hpath.tail ⟨e, he, hhidden, hn⟩⟩

theorem exists_root_of_referred (hm : IsReferred s m) :
    ∃ root, IsRoot s root ∧ ReflTransGen (LeadsTo s.objects) root m := by
  cases hm with
  | object he hshown hn => exact ⟨_, .object he hshown, .single ⟨_, he, hn⟩⟩
  | event he hshown hn => exact ⟨m, .event he hshown hn, .refl⟩

/-- A hidden object is planned if something that is not hidden refers to it, at once or over hidden
objects. -/
theorem mem_plannedObjects_of_isHidden
    (h : plannedObjects s (plannedEvents s) = .ok objects) {e : Entity}
    (he : s.objects.get? n = some e) (hhidden : e.isHidden = true) :
    n ∈ objects.names ↔ ∃ m, IsReferred s m ∧ ReflTransGen (HiddenLeadsTo s.objects) m n := by
  constructor
  · intro hn
    obtain ⟨f, hf⟩ := Table.mem_names_iff.1 hn
    obtain ⟨-, root, hroot, hpath⟩ := (get?_plannedObjects_iff h).1 hf
    refine (shown_or_referred hroot hpath).resolve_left fun ⟨g, hg, hshown⟩ ↦ ?_
    cases he.symm.trans hg
    rw [hhidden] at hshown
    cases hshown
  · rintro ⟨m, hm, hpath⟩
    obtain ⟨root, hroot, hreached⟩ := exists_root_of_referred hm
    have hleads : ReflTransGen (LeadsTo s.objects) m n :=
      ReflTransGen.mono (fun _ _ hstep ↦ hstep.leadsTo) m n hpath
    exact Table.mem_names_iff.2
      ⟨e, (get?_plannedObjects_iff h).2 ⟨he, root, hroot, hreached.trans hleads⟩⟩

/-! ### The barrel of the objects -/

/-- The barrel exports the names of the objects that it imports. -/
theorem mem_exported_ofObjects {name : String} (h : p.order.Perm p.objects.names) :
    name ∈ (Barrel.ofObjects p).exported ↔
      ∃ n e, p.objects.get? n = some e ∧ e.isHidden = false ∧ name ∈ exportsOf e := by
  simp only [Barrel.exported, List.mem_mergeSort, List.mem_flatMap, Barrel.ofObjects, List.mem_map,
    List.mem_filter, (perm_values_of_order h).mem_iff, Table.mem_values_iff, Bool.not_eq_true']
  constructor
  · rintro ⟨_, ⟨e, ⟨⟨n, he⟩, hshown⟩, rfl⟩, hname⟩
    exact ⟨n, e, he, hshown, hname⟩
  · rintro ⟨n, e, he, hshown, hname⟩
    exact ⟨_, ⟨e, ⟨⟨n, he⟩, hshown⟩, rfl⟩, hname⟩

/-- The names of a planned object are exported exactly if it is not hidden. -/
theorem mem_exported_iff {name : String} {e : Entity} (h : p.order.Perm p.objects.names)
    (hdistinct : Distinguished p.objects.values) (he : p.objects.get? n = some e)
    (hname : name ∈ exportsOf e) :
    name ∈ (Barrel.ofObjects p).exported ↔ e.isHidden = false := by
  rw [mem_exported_ofObjects h]
  constructor
  · rintro ⟨m, f, hf, hshown, hnamef⟩
    have heq : e = f := hdistinct.eq_of_mem_exports (Table.mem_values_iff.2 ⟨n, he⟩)
      (Table.mem_values_iff.2 ⟨m, hf⟩) hname hnamef
    exact heq ▸ hshown
  · exact fun hshown ↦ ⟨n, e, he, hshown, hname⟩

/-- The files of a package hold the barrel of its objects. -/
theorem get?_filesOf_ofObjects {files : Table String} (h : filesOf p = .ok files) :
    files.get? s!"{objectsPackage}/{initFile}" = some (Barrel.ofObjects p).text := by
  obtain ⟨es, rfl, hes⟩ := entries_of_filesOf h
  rw [barrelPath]
  refine Table.get?_ofList ((hes _ _).2 .objects) fun text htext ↦ ?_
  rcases ((hes _ _).1 htext).of_objects with ⟨e, -, m, -, hinit, -⟩ | ⟨-, htext⟩
  · exact absurd hinit.symm (moduleOf_ne_init e)
  · exact htext

/-! ### The content of a plan -/

/-- What a plan holds of a schema. -/
structure Plan.Comprises (p : Plan) (s : Schema) : Prop where
  /-- The event classes that are not hidden. -/
  events : ∀ n e, p.events.get? n = some e ↔ s.events.get? n = some e ∧ e.isHidden = false
  /-- The objects that are reached from objects that are not hidden and from these event classes. -/
  objects : ∀ n e, p.objects.get? n = some e ↔
    s.objects.get? n = some e ∧ ∃ root, IsRoot s root ∧ ReflTransGen (LeadsTo s.objects) root n
  /-- Hidden objects if something that is not hidden refers to them, at once or over hidden
  objects. -/
  hidden : ∀ n e, s.objects.get? n = some e → e.isHidden = true →
    (n ∈ p.objects.names ↔ ∃ m, IsReferred s m ∧ ReflTransGen (HiddenLeadsTo s.objects) m n)
  /-- What the objects refer to. -/
  closed : ∀ n e, p.objects.get? n = some e → ∀ object ∈ e.references, object ∈ p.objects.names
  /-- What the event classes refer to. -/
  referred : ∀ n e, p.events.get? n = some e → ∀ object ∈ e.references, object ∈ p.objects.names
  /-- The barrel of the objects imports those that are not hidden. -/
  imports : (Barrel.ofObjects p).imports.Perm
    ((p.objects.values.filter fun e ↦ !e.isHidden).map Barrel.entityImport)
  /-- It exports their names. -/
  exported : ∀ name, name ∈ (Barrel.ofObjects p).exported ↔
    ∃ n e, p.objects.get? n = some e ∧ e.isHidden = false ∧ name ∈ exportsOf e
  /-- So it exports the names of a planned object exactly if that is not hidden. -/
  shown : ∀ n e, p.objects.get? n = some e → ∀ name ∈ exportsOf e,
    (name ∈ (Barrel.ofObjects p).exported ↔ e.isHidden = false)
  /-- It is a file of the package. -/
  file : ∀ files, filesOf p = .ok files →
    files.get? s!"{objectsPackage}/{initFile}" = some (Barrel.ofObjects p).text

theorem comprises_of_ok (h : plan s d = .ok p) : p.Comprises s := by
  have hp := plan_eq_ok_iff.1 h
  have hobjects := hp.objects
  have hdistinct := Distinguished.of_checkNames hp.objectNames
  have hperm := (objectOrder_ordered hp.order).1
  obtain ⟨-, hroots, hclosed⟩ := holdsPlanned_of_plannedObjects hobjects
  have hevent (n : String) (e : Entity) : p.events.get? n = some e ↔
      s.events.get? n = some e ∧ e.isHidden = false := by
    rw [hp.events, get?_plannedEvents_iff]
  constructor
  case events => exact hevent
  case objects => exact fun _ _ ↦ get?_plannedObjects_iff hobjects
  case hidden => exact fun _ _ ↦ mem_plannedObjects_of_isHidden hobjects
  case closed => exact hclosed
  case referred =>
    intro n e he object hobject
    obtain ⟨he, hshown⟩ := (hevent n e).1 he
    exact hroots object (mem_plannedRoots.2 (.event he hshown hobject))
  case imports => exact ((perm_values_of_order hperm).filter _).map _
  case exported => exact fun _ ↦ mem_exported_ofObjects hperm
  case shown => exact fun _ _ he _ ↦ mem_exported_iff hperm hdistinct he
  case file => exact fun _ ↦ get?_filesOf_ofObjects

/-- **What a package holds.** Visiting what is referred to ends in every schema, whatever its
objects refer to, with one outcome, and the planned objects are those of that outcome. A plan holds
the event classes that are not hidden, and the objects that are reached from these and from objects
that are not hidden; hidden objects among them, if something that is not hidden refers to them at
once or over other hidden objects. The barrel of the objects exports those that are not hidden. -/
theorem comprises_of_plan (s : Schema) :
    (∃ outcome, Visits s.objects [] (plannedRoots s (plannedEvents s)).reverse outcome ∧
      (∀ other, Visits s.objects [] (plannedRoots s (plannedEvents s)).reverse other →
        other = outcome) ∧
      plannedObjects s (plannedEvents s) =
        outcome.map fun found ↦ s.objects.sorted.filter fun e ↦ found.contains e.1) ∧
    ∀ d p, plan s d = .ok p → p.Comprises s := by
  obtain ⟨outcome, hvisits, hplanned⟩ := visits_plannedRoots s (plannedEvents s)
  exact ⟨⟨outcome, hvisits, fun _ hother ↦ hother.unique hvisits, hplanned⟩,
    fun _ _ ↦ comprises_of_ok⟩

/-- The audit of a logon is planned, and the trail that it leaves; nothing that is not hidden leads
to a spare object. The trail is hidden, so the barrel exports users but no trails. -/
theorem comprises_of_plan_trailSchema : ∃ p, plan trailSchema userGroupsLate = .ok p ∧
    p.Comprises trailSchema ∧ p.events.names = ["logon"] ∧
    p.objects.names = ["audit", "group", "trail", "user"] ∧
    "User" ∈ (Barrel.ofObjects p).exported ∧ "Trail" ∉ (Barrel.ofObjects p).exported := by
  obtain ⟨p, hplan, -, hobjects, -⟩ := exists_plan_trailSchema
  have hcomprises := (comprises_of_plan trailSchema).2 userGroupsLate p hplan
  have hevents : p.events = trailSchema.events.filter fun e ↦ !e.2.isHidden :=
    (plan_eq_ok_iff.1 hplan).events.trans plannedEvents_trailSchema
  have huser : p.objects.get? "user" = some (entityOf (refers "user" "group" true)) := by
    rw [hobjects]
    rfl
  have htrail : p.objects.get? "trail" = some (hiddenRefers "trail" "user") := by
    rw [hobjects]
    rfl
  refine ⟨p, hplan, hcomprises, ?_, ?_, ?_, ?_⟩
  · rw [hevents]
    decide
  · rw [hobjects]
    decide
  · exact (hcomprises.shown _ _ huser "User" (by decide +kernel)).2 rfl
  · exact mt (hcomprises.shown _ _ htrail "Trail" (by decide +kernel)).1 (by decide)

end EventSchema.Package
