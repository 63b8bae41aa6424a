import EventSchema.Proofs.Package.Rendering

/-!
# Catalogs in another order

A catalog lists its categories, objects, event classes and enumerations in the order in which they
were read. Two catalogs that hold the same under every name (`Catalog.Rearranged`) come to the same
package: an entity is worked out by looking names up, and everything after that goes through tables
that were sorted first (`Table.SameMap.sorted_eq`). Only which of several entities is reported
first, when they cannot be worked out, hangs on the order.
-/

namespace EventSchema

universe u

/-! ### Tables -/

namespace Table

variable {α β : Type u} {t t' : Table α}

/-- Every name has the same value in both tables, wherever it stands. -/
def SameMap (t t' : Table α) : Prop := ∀ n, t.get? n = t'.get? n

namespace SameMap

theorem symm (h : t.SameMap t') : t'.SameMap t := fun n ↦ (h n).symm

/-- Tables with the same values have the same names. -/
theorem mem_names_iff (h : t.SameMap t') {n : String} : n ∈ t.names ↔ n ∈ t'.names := by
  rw [Table.mem_names_iff, Table.mem_names_iff, h n]

/-- Tables with the same values have the same entries in some order. -/
theorem perm (h : t.SameMap t') : t.entries.Perm t'.entries := by
  have hnodup : ∀ t : Table α, t.entries.Nodup := fun t ↦ t.nodup.of_map Prod.fst
  refine (List.perm_ext_iff_of_nodup (hnodup t) (hnodup t')).2 fun ⟨n, a⟩ ↦ ?_
  rw [← get?_eq_some_iff, ← get?_eq_some_iff, h n]

/-- Tables with the same values stay so when all values are changed alike. -/
theorem map (h : t.SameMap t') (f : α → β) : (t.map f).SameMap (t'.map f) := fun n ↦ by
  rw [get?_map, get?_map, h n]

/-- Sorting forgets the order. -/
theorem sorted_eq (h : t.SameMap t') : t.sorted = t'.sorted := by
  have hperm : t.sorted.entries.Perm t'.sorted.entries :=
    ((List.mergeSort_perm t.entries _).trans h.perm).trans (List.mergeSort_perm t'.entries _).symm
  refine Table.ext
    (hperm.eq_of_pairwise (fun a b ha hb hab hba ↦ ?_) t.pairwise_sorted t'.pairwise_sorted)
  -- entries of one name are one entry, since names stand once
  have hname : a.1 = b.1 := String.le_antisymm hab hba
  exact List.inj_on_of_nodup_map t.sorted.nodup ha (hperm.mem_iff.2 hb) hname

end SameMap

end Table

/-! ### Entities -/

variable {definitions definitions' : Table Definition} {categories categories' : Table Uid}

/-- A walk does not depend on how the definitions are arranged. -/
theorem lineageFrom_of_sameMap (h : definitions.SameMap definitions') (origin : String) (fuel : Nat)
    (walk : List String) (below : List Definition) (n : String) :
    lineageFrom definitions origin fuel walk below n =
      lineageFrom definitions' origin fuel walk below n := by
  induction fuel generalizing walk below n with
  | zero => rfl
  | succ fuel ih => simp only [lineageFrom, h n, ih]

/-- A lineage does not depend on how the definitions are arranged. -/
theorem lineage_of_sameMap (h : definitions.SameMap definitions') (n : String) :
    lineage definitions n = lineage definitions' n := by
  have hsize : definitions.size = definitions'.size := h.perm.length_eq
  rw [lineage, lineage, hsize, lineageFrom_of_sameMap h]

/-- The identifier of a category does not depend on how the categories are arranged. -/
theorem categoryUid_of_sameMap (h : categories.SameMap categories')
    (event : String) (category : Json) :
    categoryUid categories event category = categoryUid categories' event category := by
  have hget : categories.get? = categories'.get? := funext h
  simp only [categoryUid, hget]

/-- An entity is worked out by looking names up. -/
theorem Entity.ofName_of_sameMap (h : definitions.SameMap definitions')
    (hcategories : categories.SameMap categories') (n : String) :
    Entity.ofName definitions categories n = Entity.ofName definitions' categories' n := by
  simp only [Entity.ofName, Entity.ofLineage, eventUids, lineage_of_sameMap h,
    categoryUid_of_sameMap hcategories]

/-- All entities are worked out, or some entity is not, whatever the order. -/
theorem resolveAll_of_sameMap (h : definitions.SameMap definitions')
    (hcategories : categories.SameMap categories') (j j' : Journal) :
    (∃ x x', (execute (resolveAll definitions categories) j).1 = .error x ∧
      (execute (resolveAll definitions' categories') j').1 = .error x') ∨
    ∃ t t', (execute (resolveAll definitions categories) j).1 = .ok t ∧
      (execute (resolveAll definitions' categories') j').1 = .ok t' ∧ t.SameMap t' := by
  -- a failure is that of one name, and on that name the other order fails as well
  have hfails : ∀ {definitions definitions' : Table Definition} {categories categories' : Table Uid}
      {j j' : Journal} {x : LineageError} {t : Table Entity}, definitions.SameMap definitions' →
      categories.SameMap categories' →
      (execute (resolveAll definitions categories) j).1 = .error x →
      (execute (resolveAll definitions' categories') j').1 ≠ .ok t := by
    intro definitions definitions' categories categories' j j' x t h hcategories herror hok
    obtain ⟨n, hn, hx⟩ := exists_of_resolveNames_error herror
    have hholds := resolveAll_holdsEntities hok
    obtain ⟨e, he⟩ := Table.mem_names_iff.1 (hholds.mem_names n (h.mem_names_iff.1 hn))
    have hname := ((hholds.get?_iff n e).1 he).2
    rw [← Entity.ofName_of_sameMap h hcategories, hx] at hname
    cases hname
  rcases hrun : (execute (resolveAll definitions categories) j).1 with x | t
  · rcases hrun' : (execute (resolveAll definitions' categories') j').1 with x' | t'
    · exact .inl ⟨x, x', rfl, rfl⟩
    · exact absurd hrun' (hfails h hcategories hrun)
  · rcases hrun' : (execute (resolveAll definitions' categories') j').1 with x' | t'
    · exact absurd hrun (hfails h.symm hcategories.symm hrun')
    · refine .inr ⟨t, t', rfl, rfl, fun n ↦ Option.ext fun e ↦ ?_⟩
      rw [(resolveAll_holdsEntities hrun).get?_iff, (resolveAll_holdsEntities hrun').get?_iff,
        h.mem_names_iff, Entity.ofName_of_sameMap h hcategories]

/-! ### Catalogs and schemas -/

/-- Two catalogs of one version hold the same under every name. -/
structure Catalog.Rearranged (c c' : Catalog) : Prop where
  version : c.version = c'.version
  categories : c.categories.SameMap c'.categories
  objects : c.objects.SameMap c'.objects
  events : c.events.SameMap c'.events
  enums : c.enums.SameMap c'.enums

/-- Two schemas of one version hold the same under every name. -/
structure Schema.Rearranged (s s' : Schema) : Prop where
  version : s.version = s'.version
  objects : s.objects.SameMap s'.objects
  events : s.events.SameMap s'.events
  enums : s.enums.SameMap s'.enums

/-- Rearranged catalogs fail both, or are resolved to rearranged schemas. -/
theorem Catalog.Rearranged.resolve {c c' : Catalog} (h : c.Rearranged c') :
    (∃ x x', c.resolve.outcome.1 = .error x ∧ c'.resolve.outcome.1 = .error x') ∨
    ∃ s s', c.resolve.outcome.1 = .ok s ∧ c'.resolve.outcome.1 = .ok s' ∧ s.Rearranged s' := by
  simp only [Reporting.outcome_eq, Catalog.resolve, execute_bind]
  rcases hobjects : execute (resolveAll c.objects .empty) [] with ⟨r, j⟩
  rcases hobjects' : execute (resolveAll c'.objects .empty) [] with ⟨r', j'⟩
  have hone := resolveAll_of_sameMap h.objects (fun _ ↦ rfl : Table.SameMap .empty .empty) [] []
  rw [hobjects, hobjects'] at hone
  rcases hone with ⟨x, x', rfl, rfl⟩ | ⟨objects, objects', rfl, rfl, hsame⟩
  · exact .inl ⟨x, x', rfl, rfl⟩
  dsimp only
  rcases hevents : execute (resolveAll c.events c.categories) j with ⟨r, k⟩
  rcases hevents' : execute (resolveAll c'.events c'.categories) j' with ⟨r', k'⟩
  have htwo := resolveAll_of_sameMap h.events h.categories j j'
  rw [hevents, hevents'] at htwo
  rcases htwo with ⟨x, x', rfl, rfl⟩ | ⟨events, events', rfl, rfl, hsame'⟩
  · exact .inl ⟨x, x', rfl, rfl⟩
  · exact .inr ⟨_, _, rfl, rfl, ⟨h.version, hsame, hsame', h.enums⟩⟩

end EventSchema

namespace EventSchema.Package

variable {s s' : Schema} {d : Deferral}

/-! ### Plans -/

/-- What references lead to does not depend on how the objects are arranged. -/
theorem visitReferences_of_sameMap {objects objects' : Table Entity} (h : objects.SameMap objects')
    (fuel : Nat) (planned pending : List String) :
    visitReferences objects fuel planned pending =
      visitReferences objects' fuel planned pending := by
  induction fuel generalizing planned pending with
  | zero => rfl
  | succ fuel ih =>
    cases pending with
    | nil => rfl
    | cons name pending => simp only [visitReferences, h name, ih]

/-- Rearranged schemas have the same planned objects. -/
theorem plannedObjects_of_rearranged (h : s.Rearranged s') (events : Table Entity) :
    plannedObjects s events = plannedObjects s' events := by
  have hcount : (s.objects.values.flatMap Entity.references).length =
      (s'.objects.values.flatMap Entity.references).length :=
    ((h.objects.perm.map Prod.snd).flatMap_right Entity.references).length_eq
  simp only [plannedObjects, plannedRoots, h.objects.sorted_eq, hcount,
    visitReferences_of_sameMap h.objects]

/-- The plans of schemas that hold the same differ in the schema alone. -/
theorem plan_of_rearranged (h : s.Rearranged s') (d : Deferral) :
    plan s' d = (plan s d).map fun p ↦ { p with schema := s' } := by
  have hevents : plannedEvents s = plannedEvents s' := by
    rw [plannedEvents, plannedEvents, h.events.sorted_eq]
  have henums : ∀ events, plannedEnums s events = plannedEnums s' events := fun events ↦ by
    simp only [plannedEnums, h.enums.sorted_eq]
  simp only [plan, hevents, plannedObjects_of_rearranged h, henums]
  -- whichever step fails, it is the same step of both
  cases plannedObjects s' (plannedEvents s') with
  | error x => rfl
  | ok objects =>
    cases plannedEnums s' (plannedEvents s') with
    | error x => rfl
    | ok enums =>
      dsimp only [bind, Except.bind]
      cases checkNames objectsPackage objects with
      | error x => rfl
      | ok _ =>
        cases checkNames eventsPackage (plannedEvents s') with
        | error x => rfl
        | ok _ => cases objectOrder objects d <;> rfl

/-! ### Files -/

/-- A module takes the version alone from the schema. -/
theorem EntityModule.of_withSchema {p : Plan} (h : p.schema.version = s'.version) (e : Entity) :
    EntityModule.of { p with schema := s' } e = EntityModule.of p e := by
  simp only [EntityModule.of, h]

/-- The files take the version alone from the schema. -/
theorem filesOf_withSchema {p : Plan} (h : p.schema.version = s'.version) :
    filesOf { p with schema := s' } = filesOf p := by
  simp only [filesOf, entityFiles, enumFiles, Barrel.ofObjects, Barrel.ofEvents, Barrel.ofEnums,
    EntityModule.of_withSchema h, h]

/-! ### Packages -/

/-- Two computations fail both, or have related results both. -/
inductive Agreeing {ε δ α β : Type} (R : α → β → Prop) : Except ε α → Except δ β → Prop where
  | error (x : ε) (y : δ) : Agreeing R (.error x) (.error y)
  | ok {a : α} {b : β} (related : R a b) : Agreeing R (.ok a) (.ok b)

/-- What two plans have in common if they differ in the schema alone. -/
structure Plan.SameContent (p p' : Plan) : Prop where
  deferral : p.deferral = p'.deferral
  objects : p.objects = p'.objects
  events : p.events = p'.events
  enums : p.enums = p'.enums
  order : p.order = p'.order
  files : filesOf p = filesOf p'

/-- Rearranged schemas have no plan both, or plans of the same content. -/
theorem agreeing_plan_of_rearranged (h : s.Rearranged s') (d : Deferral) :
    Agreeing Plan.SameContent (plan s d) (plan s' d) := by
  rw [plan_of_rearranged h]
  cases hplan : plan s d with
  | error x => exact .error x x
  | ok p =>
    have hversion : p.schema.version = s'.version := by
      rw [(plan_eq_ok_iff.1 hplan).schema, h.version]
    exact .ok ⟨rfl, rfl, rfl, rfl, rfl, (filesOf_withSchema hversion).symm⟩

/-- **Order does not matter.** Catalogs that hold the same under every name, in whatever order, are
worked out both or neither. If they are, the same references are deferred, or deferring fails in the
same way; and with whatever is deferred, both are planned or neither is, with the same content in
the same order and the same text in every file. -/
theorem package_of_rearranged {c c' : Catalog} (h : c.Rearranged c') :
    Agreeing (fun s s' ↦
        (ReferenceGraph.ofObjects s.objects).defer.outcome =
          (ReferenceGraph.ofObjects s'.objects).defer.outcome ∧
        ∀ d, Agreeing Plan.SameContent (plan s d) (plan s' d))
      c.resolve.outcome.1 c'.resolve.outcome.1 := by
  obtain ⟨x, x', hx, hx'⟩ | ⟨s, s', hs, hs', hsame⟩ := h.resolve
  · rw [hx, hx']
    exact .error x x'
  · rw [hs, hs']
    refine .ok ⟨?_, agreeing_plan_of_rearranged hsame⟩
    have hgraph : ReferenceGraph.ofObjects s.objects = ReferenceGraph.ofObjects s'.objects := by
      rw [ReferenceGraph.ofObjects, ReferenceGraph.ofObjects,
        (hsame.objects.map ReferenceGraph.referencesOf).sorted_eq]
    rw [hgraph]

/-! ### Two orders of one catalog -/

/-- An attribute that refers to an object and says nothing else. -/
def reference (object : String) (isArray : Bool) : Attribute where
  name := object
  scalarType := "object_t"
  target := some object
  isArray := isArray
  requirement := .str "optional"
  caption := .str ""
  description := ""
  sibling := .null
  enumValues := none
  deprecation := none
  profile := .null
  overrides := .ofList []

/-- An object with one attribute that refers to another object. -/
def refers (name object : String) (isArray : Bool) : Definition where
  kind := .object
  name := name
  ancestor := none
  caption := .str ""
  description := ""
  attributes := Table.empty.put object (reference object isArray)
  closed := none
  category := .null
  uid := none
  isHidden := false

/-- The catalog of objects alone. -/
def catalogOf (objects : Table Definition) : Catalog :=
  ⟨.str "1.7.0", .empty, objects, .empty, .empty⟩

/-- Groups that may name their owner, before users with a list of their groups. -/
def groupsFirst : Catalog :=
  catalogOf ((Table.empty.put "group" (refers "group" "user" false)).put "user"
    (refers "user" "group" true))

/-- The same with users before groups. -/
def usersFirst : Catalog :=
  catalogOf ((Table.empty.put "user" (refers "user" "group" true)).put "group"
    (refers "group" "user" false))

theorem rearranged_usersFirst : groupsFirst.Rearranged usersFirst := by
  refine ⟨rfl, fun _ ↦ rfl, fun n ↦ ?_, fun _ ↦ rfl, fun _ ↦ rfl⟩
  show ((Table.empty.put "group" _).put "user" _).get? n =
    ((Table.empty.put "user" _).put "group" _).get? n
  simp only [Table.get?_put]
  by_cases hgroup : "group" = n
  · subst hgroup
    rfl
  · simp only [hgroup, if_false]

/-- The entity of a definition without ancestors. -/
def entityOf (d : Definition) : Entity :=
  { (default : Entity) with
    name := d.name, caption := d.caption, description := d.description, attributes := d.attributes,
    isHidden := d.isHidden, category := none, categoryUid := .number 0, classUid := 0 }

/-- Groups before users, worked out. -/
def groupSchema : Schema := ⟨.str "1.7.0", groupsFirst.objects.map entityOf, .empty, .empty⟩

/-- The catalog of groups and users is worked out as the schema says. -/
theorem resolve_groupsFirst : groupsFirst.resolve.outcome.1 = .ok groupSchema := rfl

/-- The lists of groups are bound late. -/
def userGroupsLate : Deferral := ⟨[("user", "group")], [["group", "user"]]⟩

/-- Nothing is bound late. -/
def nothingLate : Deferral := ⟨[], []⟩

theorem plannedEvents_groupSchema : plannedEvents groupSchema = .empty := by
  rw [plannedEvents, groupSchema, Table.sorted_empty]
  rfl

/-- Groups and users are both planned. -/
theorem plannedObjects_groupSchema :
    plannedObjects groupSchema (plannedEvents groupSchema) = .ok groupSchema.objects := by
  have hsorted : groupSchema.objects.sorted = groupSchema.objects :=
    Table.sorted_eq_self (by decide)
  rw [plannedEvents_groupSchema, plannedObjects, plannedRoots, hsorted]
  rfl

/-- There is a plan that binds the lists of groups late. -/
theorem exists_plan_groupSchema : ∃ p, plan groupSchema userGroupsLate = .ok p := by
  have hascending : groupSchema.objects.entries.Pairwise fun a b ↦ a.1 ≤ b.1 := by decide
  have hok : (plan groupSchema userGroupsLate).isOk = true := by
    rw [plan, plannedObjects_groupSchema, plannedEvents_groupSchema]
    dsimp only [bind, Except.bind]
    simp only [objectOrder, ReferenceGraph.ofObjects_of_ascending hascending]
    decide +kernel
  exact exists_of_isOk hok

/-- Groups and users listed the other way round are worked out the other way round; the same
references are deferred, and where lists of groups are bound late both are planned, with the same
files. -/
theorem package_of_usersFirst : groupsFirst.Rearranged usersFirst ∧
    groupsFirst.objects.names = ["group", "user"] ∧ usersFirst.objects.names = ["user", "group"] ∧
    ∃ s, groupsFirst.resolve.outcome.1 = .ok groupSchema ∧ usersFirst.resolve.outcome.1 = .ok s ∧
      s.objects.names = ["user", "group"] ∧
      (ReferenceGraph.ofObjects groupSchema.objects).defer.outcome =
        (ReferenceGraph.ofObjects s.objects).defer.outcome ∧
      ∃ p p', plan groupSchema userGroupsLate = .ok p ∧ plan s userGroupsLate = .ok p' ∧
        p.SameContent p' := by
  refine ⟨rearranged_usersFirst, by decide, by decide, ?_⟩
  have hfirst := resolve_groupsFirst
  obtain ⟨s, hs, hnames⟩ : ∃ s, usersFirst.resolve.outcome.1 = .ok s ∧
    s.objects.names = ["user", "group"] := ⟨_, rfl, by decide⟩
  obtain ⟨p, hp⟩ := exists_plan_groupSchema
  have h := package_of_rearranged rearranged_usersFirst
  rw [hfirst, hs] at h
  cases h with
  | ok hrelated =>
    obtain ⟨hdefer, hplans⟩ := hrelated
    have hplans := hplans userGroupsLate
    rw [hp] at hplans
    cases hsecond : plan s userGroupsLate with
    | error x =>
      rw [hsecond] at hplans
      cases hplans
    | ok p' =>
      rw [hsecond] at hplans
      cases hplans with
      | ok hsame => exact ⟨s, rfl, hs, hnames, hdefer, p, p', hp, hsecond, hsame⟩

end EventSchema.Package
