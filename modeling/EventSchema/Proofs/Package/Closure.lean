import EventSchema.Package.Plan
import EventSchema.Proofs.Catalog.Inheritance
import EventSchema.Proofs.Deferral.Objects

/-!
# The planned objects

The objects of a package are found by visiting what the planned entities refer to. `Visits` says how
visiting goes on, name by name, up to its outcome. The number of visits to come falls with each of
them, since a visited object adds its references to the pending names once, so visiting ends
whatever refers to what, and the fuel suffices (`visits_visitReferences`).

What is found holds all that was pending and what its own objects refer to (`Visits.mem_of_pending`,
`Visits.closed`), and visiting fails at a name of no object alone. So in a schema that refers to its
own objects the planned objects are found, and they refer to each other (`exists_plannedObjects`).
-/

namespace EventSchema

/-! ### Referenced names -/

theorem Entity.RefersInto.mem_of_references {e : Entity} {names : List String} {object : String}
    (h : e.RefersInto names) (ho : object ∈ e.references) : object ∈ names := by
  obtain ⟨a, ha, htarget⟩ := Entity.mem_references.1 ho
  exact Table.all_iff_values.1 h a ha object (Option.filter_eq_some_iff.1 htarget).1

/-- The references of a schema that refers to its own objects lead to its objects. -/
theorem Schema.TargetsDefined.closed {schema : Schema} (hs : schema.TargetsDefined) :
    (ReferenceGraph.ofObjects schema.objects).Closed :=
  ReferenceGraph.closed_ofObjects fun n e he _ ho ↦
    Entity.RefersInto.mem_of_references (hs.objects n e he) ho

end EventSchema

namespace EventSchema.Package

variable {objects : Table Entity} {planned pending : List String} {name : String} {e : Entity}

/-! ### Visits to come -/

/-- The number of references of the objects that are not planned yet. -/
def unplannedReferences (objects : Entries Entity) (planned : List String) : Nat :=
  ((objects.filter fun e ↦ !planned.contains e.1).flatMap fun e ↦ e.2.references).length

theorem unplannedReferences_append_of_not_mem {es : Entries Entity} (h : name ∉ es.names) :
    unplannedReferences es (planned ++ [name]) = unplannedReferences es planned := by
  rw [unplannedReferences, unplannedReferences]
  congr 2
  refine List.filter_congr fun e he ↦ ?_
  have hne : e.1 ≠ name := fun hn ↦ h (hn ▸ List.mem_map.2 ⟨e, he, rfl⟩)
  simp [hne]

/-- Planning an object takes its references away from those to come. -/
theorem unplannedReferences_append {es : Entries Entity} (hes : es.names.Nodup)
    (he : (name, e) ∈ es) (hname : name ∉ planned) :
    unplannedReferences es (planned ++ [name]) + e.references.length =
      unplannedReferences es planned := by
  induction es with
  | nil => cases he
  | cons f es ih =>
    have hsplit : ∀ planned, unplannedReferences (f :: es) planned =
        (if f.1 ∈ planned then 0 else f.2.references.length) + unplannedReferences es planned := by
      intro planned
      by_cases hf : f.1 ∈ planned <;> simp [unplannedReferences, hf]
    obtain ⟨hf, hrest⟩ := List.nodup_cons.1 hes
    rw [hsplit, hsplit]
    rcases List.mem_cons.1 he with rfl | he
    · rw [unplannedReferences_append_of_not_mem hf, if_pos (by simp), if_neg hname]
      exact (congrArg (· + _) (Nat.zero_add _)).trans (Nat.add_comm _ _)
    · have hne : f.1 ≠ name := fun hn ↦ hf (List.mem_map.2 ⟨_, he, hn.symm⟩)
      have hmem : f.1 ∈ planned ++ [name] ↔ f.1 ∈ planned := by simp [hne]
      simp only [hmem, ← ih hrest he]
      omega

/-! ### Visiting -/

/-- How visiting goes on from names that are planned and names that are pending, up to its
outcome. -/
inductive Visits (objects : Table Entity) : List String → List String →
    Except PlanError (List String) → Prop where
  /-- Nothing is pending any more. -/
  | done {planned : List String} : Visits objects planned [] (.ok planned)
  /-- A name that is planned is passed over. -/
  | skip {planned pending : List String} {name : String} {outcome : Except PlanError (List String)}
      (hname : name ∈ planned) (rest : Visits objects planned pending outcome) :
      Visits objects planned (name :: pending) outcome
  /-- Another name is planned, and what its object refers to is visited next. -/
  | visit {planned pending : List String} {name : String} {e : Entity}
      {outcome : Except PlanError (List String)} (hname : name ∉ planned)
      (he : objects.get? name = some e)
      (rest : Visits objects (planned ++ [name]) (e.references.reverse ++ pending) outcome) :
      Visits objects planned (name :: pending) outcome
  /-- A name of no object ends the visits. -/
  | undefined {planned pending : List String} {name : String} (hname : name ∉ planned)
      (hnone : objects.get? name = none) :
      Visits objects planned (name :: pending) (.error (.objectUndefined name))

/-- With enough fuel the visits are made to their end. -/
theorem visits_visitReferences {fuel : Nat}
    (hfuel : pending.length + unplannedReferences objects.entries planned ≤ fuel) :
    Visits objects planned pending (visitReferences objects fuel planned pending) := by
  -- each step takes a name off the pending ones, or plans it and adds its references once
  induction fuel generalizing planned pending with
  | zero =>
    obtain rfl : pending = [] := List.length_eq_zero_iff.1 (by omega)
    exact .done
  | succ fuel ih =>
    cases pending with
    | nil => exact .done
    | cons name pending =>
      rw [List.length_cons] at hfuel
      unfold visitReferences
      by_cases hname : name ∈ planned
      · rw [if_pos (List.contains_iff_mem.2 hname)]
        exact .skip hname (ih (by omega))
      · rw [if_neg (mt List.contains_iff_mem.1 hname)]
        cases he : objects.get? name with
        | none => exact .undefined hname he
        | some e =>
          have hsum := unplannedReferences_append objects.nodup (Table.get?_eq_some_iff.1 he) hname
          refine .visit hname he (ih ?_)
          rw [List.length_append, List.length_reverse]
          omega

namespace Visits

variable {found : List String} {outcome : Except PlanError (List String)} {n : String}

theorem mem_of_planned (h : Visits objects planned pending (.ok found)) (hn : n ∈ planned) :
    n ∈ found := by
  generalize houtcome : Except.ok found = outcome at h
  induction h with
  | done =>
    cases houtcome
    exact hn
  | skip _ _ ih => exact ih hn houtcome
  | visit _ _ _ ih => exact ih (List.mem_append_left _ hn) houtcome
  | undefined => cases houtcome

theorem mem_of_pending (h : Visits objects planned pending (.ok found)) (hn : n ∈ pending) :
    n ∈ found := by
  generalize houtcome : Except.ok found = outcome at h
  induction h with
  | done => cases hn
  | skip hname rest ih =>
    rcases List.mem_cons.1 hn with rfl | hn
    · exact (houtcome ▸ rest).mem_of_planned hname
    · exact ih hn houtcome
  | visit _ _ rest ih =>
    rcases List.mem_cons.1 hn with rfl | hn
    · exact (houtcome ▸ rest).mem_of_planned (by simp)
    · exact ih (List.mem_append_right _ hn) houtcome
  | undefined => cases houtcome

/-- What is found are objects, if what was planned are. -/
theorem mem_names (h : Visits objects planned pending (.ok found))
    (hplanned : ∀ n ∈ planned, n ∈ objects.names) :
    ∀ n ∈ found, n ∈ objects.names := by
  generalize houtcome : Except.ok found = outcome at h
  induction h with
  | done =>
    cases houtcome
    exact hplanned
  | skip _ _ ih => exact ih hplanned houtcome
  | visit _ he _ ih =>
    refine ih (fun n hn ↦ ?_) houtcome
    rcases List.mem_append.1 hn with hn | hn
    · exact hplanned n hn
    · exact Table.mem_names_iff.2 ⟨_, List.mem_singleton.1 hn ▸ he⟩
  | undefined => cases houtcome

/-- What the objects that are found refer to is found, if what the planned ones refer to is planned
or pending. -/
theorem closed (h : Visits objects planned pending (.ok found))
    (hplanned : ∀ n ∈ planned, ∀ e, objects.get? n = some e →
      ∀ o ∈ e.references, o ∈ planned ∨ o ∈ pending) :
    ∀ n ∈ found, ∀ e, objects.get? n = some e → ∀ o ∈ e.references, o ∈ found := by
  generalize houtcome : Except.ok found = outcome at h
  induction h with
  | done =>
    cases houtcome
    exact fun n hn e he o ho ↦ (hplanned n hn e he o ho).resolve_right List.not_mem_nil
  | skip hname _ ih =>
    refine ih (fun n hn e he o ho ↦ ?_) houtcome
    rcases hplanned n hn e he o ho with ho | ho
    · exact .inl ho
    · rcases List.mem_cons.1 ho with rfl | ho
      exacts [.inl hname, .inr ho]
  | visit _ hf _ ih =>
    refine ih (fun n hn e he o ho ↦ ?_) houtcome
    rcases List.mem_append.1 hn with hn | hn
    · rcases hplanned n hn e he o ho with ho | ho
      · exact .inl (List.mem_append_left _ ho)
      · rcases List.mem_cons.1 ho with rfl | ho
        · exact .inl (by simp)
        · exact .inr (List.mem_append_right _ ho)
    · rw [List.mem_singleton.1 hn, hf] at he
      cases he
      exact .inr (List.mem_append_left _ (List.mem_reverse.2 ho))
  | undefined => cases houtcome

/-- Visiting has one outcome. -/
theorem unique (h : Visits objects planned pending outcome) {other : Except PlanError (List String)}
    (hother : Visits objects planned pending other) : outcome = other := by
  induction h with
  | done =>
    cases hother
    rfl
  | skip hname _ ih =>
    cases hother with
    | skip _ rest => exact ih rest
    | visit hnot _ _ => exact absurd hname hnot
    | undefined hnot _ => exact absurd hname hnot
  | visit hname he _ ih =>
    cases hother with
    | skip hplanned _ => exact absurd hplanned hname
    | visit _ hf rest =>
      cases he.symm.trans hf
      exact ih rest
    | undefined _ hnone => cases he.symm.trans hnone
  | undefined hname hnone =>
    cases hother with
    | skip hplanned _ => exact absurd hplanned hname
    | visit _ hf _ => cases hnone.symm.trans hf
    | undefined => rfl

/-- No visit fails if all that is pending are objects and they refer to objects. -/
theorem exists_ok (h : Visits objects planned pending outcome)
    (hobjects : objects.All (Entity.RefersInto objects.names))
    (hpending : ∀ n ∈ pending, n ∈ objects.names) :
    ∃ found, outcome = .ok found := by
  induction h with
  | done => exact ⟨_, rfl⟩
  | skip _ _ ih => exact ih fun n hn ↦ hpending n (List.mem_cons_of_mem _ hn)
  | visit _ he _ ih =>
    refine ih fun n hn ↦ ?_
    rcases List.mem_append.1 hn with hn | hn
    · exact (hobjects _ _ he).mem_of_references (List.mem_reverse.1 hn)
    · exact hpending n (List.mem_cons_of_mem _ hn)
  | undefined _ hnone =>
    obtain ⟨e, he⟩ := Table.mem_names_iff.1 (hpending _ List.mem_cons_self)
    rw [hnone] at he
    cases he

end Visits

/-! ### The planned objects of a schema -/

/-- Objects of a schema that hold everything that is planned by itself and refer to each other
alone. -/
structure HoldsPlanned (schema : Schema) (objects : Table Entity) : Prop where
  get?_schema : ∀ n e, objects.get? n = some e → schema.objects.get? n = some e
  roots_mem : ∀ n ∈ plannedRoots schema (plannedEvents schema), n ∈ objects.names
  references_mem : ∀ n e, objects.get? n = some e → ∀ o ∈ e.references, o ∈ objects.names

/-- An event class that is planned is one of the schema that is not hidden. -/
theorem get?_plannedEvents_iff {s : Schema} :
    (plannedEvents s).get? name = some e ↔ s.events.get? name = some e ∧ e.isHidden = false := by
  rw [plannedEvents, Table.get?_filter_eq_some_iff, Table.get?_sorted, Bool.not_eq_true']

/-- The names that are planned by themselves. -/
inductive IsRoot (s : Schema) : String → Prop where
  /-- An object that is not hidden. -/
  | object {n : String} {e : Entity} (he : s.objects.get? n = some e)
      (hshown : e.isHidden = false) : IsRoot s n
  /-- An object that an event class refers to that is not hidden. -/
  | event {c n : String} {e : Entity} (he : s.events.get? c = some e) (hshown : e.isHidden = false)
      (hn : n ∈ e.references) : IsRoot s n

theorem mem_plannedRoots {s : Schema} : name ∈ plannedRoots s (plannedEvents s) ↔
    IsRoot s name := by
  simp only [plannedRoots, List.mem_append, Table.mem_names_iff, List.mem_flatMap,
    Table.mem_values_iff, get?_plannedEvents_iff, Table.get?_filter_eq_some_iff, Table.get?_sorted,
    Bool.not_eq_true']
  constructor
  · rintro (⟨e, he, hshown⟩ | ⟨e, ⟨c, he, hshown⟩, hn⟩)
    exacts [.object he hshown, .event he hshown hn]
  · rintro (⟨he, hshown⟩ | ⟨he, hshown, hn⟩)
    exacts [.inl ⟨_, he, hshown⟩, .inr ⟨_, ⟨_, he, hshown⟩, hn⟩]

theorem plannedRoots_mem {schema : Schema} (hs : schema.TargetsDefined)
    (h : name ∈ plannedRoots schema (plannedEvents schema)) : name ∈ schema.objects.names := by
  cases mem_plannedRoots.1 h with
  | object he _ => exact Table.mem_names_iff.2 ⟨_, he⟩
  | event he _ hn => exact (hs.events _ _ he).mem_of_references hn

/-- The fuel is what is asked for first and all that is referred to anywhere, so visiting ends in
every schema. -/
theorem visits_plannedRoots (schema : Schema) (events : Table Entity) : ∃ outcome,
    Visits schema.objects [] (plannedRoots schema events).reverse outcome ∧
      plannedObjects schema events =
        outcome.map fun found ↦ schema.objects.sorted.filter fun e ↦ found.contains e.1 := by
  have hsum : unplannedReferences schema.objects.entries [] =
      (schema.objects.values.flatMap Entity.references).length := by
    simp [unplannedReferences, Table.values, Entries.values, List.length_flatMap, Function.comp_def]
  have hfuel :
      (plannedRoots schema events).reverse.length + unplannedReferences schema.objects.entries [] ≤
      (plannedRoots schema events).length +
        (schema.objects.values.flatMap Entity.references).length := by
    rw [hsum, List.length_reverse]
  refine ⟨_, visits_visitReferences hfuel, ?_⟩
  rw [plannedObjects]
  cases visitReferences schema.objects _ [] (plannedRoots schema events).reverse <;> rfl

/-- The planned objects are the objects of the names that are found. -/
theorem get?_planned {schema : Schema} {found : List String} {n : String} {e : Entity} :
    (schema.objects.sorted.filter fun e ↦ found.contains e.1).get? n = some e ↔
      schema.objects.get? n = some e ∧ n ∈ found := by
  rw [Table.get?_filter_eq_some_iff, Table.get?_sorted, List.contains_iff_mem]

/-- The planned objects hold what is planned by itself, and they refer to each other. -/
theorem holdsPlanned_of_plannedObjects {schema : Schema}
    (h : plannedObjects schema (plannedEvents schema) = .ok objects) :
    HoldsPlanned schema objects := by
  obtain ⟨outcome, hvisits, hplanned⟩ := visits_plannedRoots schema (plannedEvents schema)
  rw [h] at hplanned
  cases outcome with
  | error x => cases hplanned
  | ok found =>
    rw [Except.ok.inj hplanned]
    have hnames :
        ∀ n ∈ found, n ∈ (schema.objects.sorted.filter fun e ↦ found.contains e.1).names := by
      intro n hn
      obtain ⟨e, he⟩ :=
        Table.mem_names_iff.1 (hvisits.mem_names (fun _ h ↦ absurd h List.not_mem_nil) n hn)
      exact Table.mem_names_iff.2 ⟨e, get?_planned.2 ⟨he, hn⟩⟩
    refine ⟨fun n e he ↦ (get?_planned.1 he).1, fun n hn ↦ ?_, fun n e he o ho ↦ ?_⟩
    · exact hnames n (hvisits.mem_of_pending (List.mem_reverse.2 hn))
    · obtain ⟨he, hn⟩ := get?_planned.1 he
      exact hnames o (hvisits.closed (fun _ h ↦ absurd h List.not_mem_nil) n hn e he o ho)

/-- In a schema that refers to its own objects the planned objects are found. -/
theorem exists_plannedObjects {schema : Schema} (hs : schema.TargetsDefined) :
    ∃ objects, plannedObjects schema (plannedEvents schema) = .ok objects ∧
      HoldsPlanned schema objects := by
  obtain ⟨outcome, hvisits, hplanned⟩ := visits_plannedRoots schema (plannedEvents schema)
  obtain ⟨found, rfl⟩ :=
    hvisits.exists_ok hs.objects fun n hn ↦ plannedRoots_mem hs (List.mem_reverse.1 hn)
  exact ⟨_, hplanned, holdsPlanned_of_plannedObjects hplanned⟩

end EventSchema.Package
