import EventSchema.Package.Files
import EventSchema.Proofs.Package.Order

/-!
# What keeps files from being written

The planned entities of a schema that refers to its own objects, none of them without a name, refer
to planned objects alone (`planLinked_of_plan`). Their modules can then fail to be written only for
a value of the wrong shape, a caption or a sibling, and never for a value that was asked for members
(`filesOf_error`).
-/

namespace EventSchema.Package

variable {s : Schema} {d : Deferral} {p : Plan} {e : Entity} {x : RenderError}

/-! ### Plans -/

/-- Planned entities refer to planned objects alone. -/
structure PlanLinked (p : Plan) : Prop where
  objects : p.objects.All (Entity.RefersInto p.objects.names)
  events : p.events.All (Entity.RefersInto p.objects.names)

/-- Where all names that an entity refers to are listed and none is empty, listing them in order of
their occurrence leaves none out. -/
theorem refersInto_of_references {names all : List String} (h : e.RefersInto all)
    (hall : "" ∉ all) (hnames : ∀ o ∈ e.references, o ∈ names) : e.RefersInto names := by
  intro n a ha o htarget
  refine hnames o (Entity.mem_references.2 ⟨a, Table.mem_values_iff.2 ⟨n, ha⟩, ?_⟩)
  rw [Attribute.target?, htarget, Option.filter_eq_some_iff]
  exact ⟨rfl, decide_eq_true fun ho ↦ hall (ho ▸ h n a ha o htarget)⟩

theorem planLinked_of_plan (hs : s.TargetsDefined) (hnames : "" ∉ s.objects.names)
    (h : plan s d = .ok p) : PlanLinked p := by
  have hp := plan_eq_ok_iff.1 h
  have hplanned := holdsPlanned_of_plannedObjects hp.objects
  refine ⟨fun n e he ↦ ?_, fun n e he ↦ ?_⟩
  · exact refersInto_of_references (hs.objects n e (hplanned.get?_schema n e he)) hnames
      (hplanned.references_mem n e he)
  · rw [hp.events] at he
    obtain ⟨hget, hshown⟩ := get?_plannedEvents_iff.1 he
    exact refersInto_of_references (hs.events n e hget) hnames fun o ho ↦
      hplanned.roots_mem o (mem_plannedRoots.2 (.event hget hshown ho))

/-! ### Modules -/

/-- A failure that is no fault of the program: a value of the wrong shape that was not asked for
members. -/
def RenderError.IsShape (x : RenderError) : Prop := ∃ e, x = .shape e ∧ e.isMembersExpected = false

theorem fieldOf_ok {planned : Table Entity} {a : Attribute} (ha : a.RefersInto planned.names) :
    ∃ f, fieldOf planned d e a = .ok f := by
  have hcontent : ∃ types, contentTypes planned d e (contentOf a) = .ok types := by
    unfold contentOf
    split
    · next object htarget =>
      obtain ⟨target, hobject⟩ := Table.mem_names_iff.1 (ha object htarget)
      simp only [contentTypes, hobject]
      exact ⟨_, rfl⟩
    · split
      · exact ⟨_, rfl⟩
      · exact ⟨_, rfl⟩
  obtain ⟨types, htypes⟩ := hcontent
  rw [fieldOf, htypes]
  exact ⟨_, rfl⟩

/-- Going through a list fails where one of its elements does. -/
theorem exists_of_mapM_error {ε α β : Type} {f : α → Except ε β} {as : List α} {x : ε}
    (h : as.mapM f = .error x) : ∃ a ∈ as, f a = .error x := by
  induction as with
  | nil => cases h
  | cons a as ih =>
    rw [List.mapM_cons] at h
    rcases bind_eq_error h with h | ⟨b, -, h⟩
    · exact ⟨a, List.mem_cons_self, h⟩
    · rcases bind_eq_error h with h | ⟨bs, -, h⟩
      · obtain ⟨a', ha', h⟩ := ih h
        exact ⟨a', List.mem_cons_of_mem _ ha', h⟩
      · cases h

theorem labelledAttributes_error {x : ShapeError} (h : labelledAttributes e = .error x) :
    x.isMembersExpected = false := by
  rcases hmap : e.attributes.values.mapM (labelled? e.attributes) with x' | found
  · rw [labelledAttributes, hmap] at h
    cases h
    obtain ⟨a, -, ha⟩ := exists_of_mapM_error hmap
    unfold labelled? at ha
    split at ha
    · rcases bind_eq_error ha with ha | ⟨found, -, ha⟩
      · exact Json.lookupName_error ha
      · cases found <;> cases ha
    · cases ha
  · rw [labelledAttributes, hmap] at h
    cases h

theorem summaryOf_error {x : ShapeError} (h : summaryOf e = .error x) :
    x.isMembersExpected = false := by
  unfold summaryOf at h
  split at h
  · cases h
  · split at h
    · cases h
    · cases h
      rfl

theorem memberNames_error {taken : List String} {values : List EnumValue} {x : ShapeError}
    (h : EnumModel.memberNames taken values = .error x) : x.isMembersExpected = false := by
  induction values generalizing taken with
  | nil => cases h
  | cons v values ih =>
    unfold EnumModel.memberNames at h
    split at h
    · rcases bind_eq_error h with h | ⟨rest, -, h⟩
      · exact ih h
      · cases h
    · cases h
      rfl

theorem mapError_shape {α : Type} {r : Except ShapeError α}
    (h : r.mapError RenderError.shape = .error x)
    (hr : ∀ y, r = .error y → y.isMembersExpected = false) : x.IsShape := by
  rcases r with y | a
  · cases h
    exact ⟨y, rfl, hr y rfl⟩
  · cases h

theorem entityModule_error (he : e.RefersInto p.objects.names)
    (h : EntityModule.of p e = .error x) :
    x.IsShape := by
  rcases bind_eq_error h with h | ⟨fields, -, h⟩
  -- fields are had, since what the attributes refer to is planned
  · obtain ⟨a, ha, hf⟩ := exists_of_mapM_error h
    obtain ⟨f, hok⟩ := fieldOf_ok (Table.all_iff_values.1 he a ha)
    rw [hok] at hf
    cases hf
  have hsummary : ∀ make : String → EntityModule,
      (do let summary ← (summaryOf e).mapError RenderError.shape; .ok (make summary)) = .error x →
        x.IsShape := fun _ h ↦ by
    rcases bind_eq_error h with h | ⟨summary, -, h⟩
    · exact mapError_shape h fun _ ↦ summaryOf_error
    · cases h
  cases hkind : e.kind with
  | event =>
    rw [hkind] at h
    rcases bind_eq_error h with h | ⟨labelled, -, h⟩
    · exact mapError_shape h fun _ ↦ labelledAttributes_error
    · exact hsummary _ h
  | object =>
    rw [hkind] at h
    rcases bind_eq_error h with h | ⟨labelled, -, h⟩
    · cases h
    · exact hsummary _ h

/-! ### All files -/

theorem entityFiles_error {folder : String} {entities : List Entity}
    (hall : ∀ e ∈ entities, e.RefersInto p.objects.names)
    (h : entityFiles p folder entities = .error x) : x.IsShape := by
  obtain ⟨e, he, h⟩ := exists_of_mapM_error h
  rcases bind_eq_error h with h | ⟨m, -, h⟩
  · exact entityModule_error (hall e he) h
  · cases h

theorem enumFiles_error (h : enumFiles p = .error x) : x.IsShape := by
  obtain ⟨e, -, h⟩ := exists_of_mapM_error h
  rcases bind_eq_error h with h | ⟨text, -, h⟩
  · refine mapError_shape h fun y hy ↦ ?_
    rcases bind_eq_error hy with hy | ⟨members, -, hy⟩
    · exact memberNames_error hy
    · cases hy
  · cases h

/-- Where planned entities refer to planned objects alone, only values of the wrong shape keep the
files from being written. -/
theorem filesOf_error (hp : PlanLinked p) (h : filesOf p = .error x) : x.IsShape := by
  rcases bind_eq_error h with h | ⟨objects, -, h⟩
  · refine entityFiles_error (fun e he ↦ ?_) h
    obtain ⟨n, -, hn⟩ := List.mem_filterMap.1 he
    exact hp.objects n e hn
  rcases bind_eq_error h with h | ⟨events, -, h⟩
  · exact entityFiles_error (Table.all_iff_values.1 hp.events) h
  rcases bind_eq_error h with h | ⟨enums, -, h⟩
  · exact enumFiles_error h
  · cases h

end EventSchema.Package
