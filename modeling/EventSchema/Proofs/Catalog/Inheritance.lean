import EventSchema.Entity
import EventSchema.Proofs.Catalog.Reading

/-!
# Working out inheritance

An attribute that is redefined refers to what the descendant says, so every attribute of an entity
refers to what some definition of its lineage refers to (`Entity.ofName_refersInto`). Working out
all entities gives each definition its entity and nothing else (`resolveAll_holdsEntities`), hence
the objects keep their names and a catalog that refers to its own objects becomes a schema that does
(`Catalog.TargetsDefined.resolve`).

Working out inheritance asks no value for members, and refuses an identifier only if it is too large
(`Catalog.resolve_error`).
-/

namespace EventSchema

variable {definitions : Table Definition} {categories : Table Uid} {names : List String}
  {d : Definition} {e : Entity} {n : String}

/-- All attributes of an entity refer to given names. -/
def Entity.RefersInto (names : List String) (e : Entity) : Prop :=
  e.attributes.All (Attribute.RefersInto names)

/-- All attributes of all entities refer to objects of the schema. -/
structure Schema.TargetsDefined (s : Schema) : Prop where
  objects : s.objects.All (Entity.RefersInto s.objects.names)
  events : s.events.All (Entity.RefersInto s.objects.names)

/-! ### Lineages -/

/-- Whatever is in a lineage is a definition. -/
theorem mem_of_lineageFrom {origin : String} {fuel : Nat} {walk : List String}
    {below chain : List Definition}
    (h : lineageFrom definitions origin fuel walk below n = .ok chain)
    (hd : d ∈ chain) : d ∈ below ∨ ∃ m, definitions.get? m = some d := by
  induction fuel generalizing walk below n with
  | zero => cases h
  | succ fuel ih =>
    unfold lineageFrom at h
    split at h
    · cases h
    · rcases hn : definitions.get? n with _ | member <;> rw [hn] at h
      · cases below <;> cases h
      · have hcons (hmem : d ∈ member :: below) :
            d ∈ below ∨ ∃ m, definitions.get? m = some d :=
          (List.mem_cons.1 hmem).elim (fun hdm ↦ .inr ⟨n, hdm ▸ hn⟩) .inl
        dsimp only at h
        split at h
        · cases h
          exact hcons hd
        · exact (ih h).elim hcons .inr

/-- A lineage is made of definitions. -/
theorem mem_of_lineage {chain : List Definition} (h : lineage definitions n = .ok chain)
    (hd : d ∈ chain) : ∃ m, definitions.get? m = some d :=
  (mem_of_lineageFrom h hd).resolve_left List.not_mem_nil

/-! ### Attributes -/

/-- A refined attribute refers to what the refinement refers to. -/
theorem refine_refersInto {a b : Attribute} (hb : b.RefersInto names) :
    (a.refine b).RefersInto names := hb

/-- Attributes refer to given names after one of them was refined by such an attribute. -/
theorem refineAttribute_all {t : Table Attribute} (ht : t.All (Attribute.RefersInto names))
    {a : Attribute} (ha : a.RefersInto names) (n : String) :
    (refineAttribute t n a).All (Attribute.RefersInto names) := by
  rw [refineAttribute]
  split
  · exact ht.put (refine_refersInto ha) n
  · exact ht.put ha n

/-- Attributes refer to given names after they were refined by such a definition. -/
theorem refineAttributes_all {t : Table Attribute} (ht : t.All (Attribute.RefersInto names))
    (hd : d.RefersInto names) : (refineAttributes t d).All (Attribute.RefersInto names) := by
  have hmem : ∀ e ∈ d.attributes.entries, e.2.RefersInto names := fun e he ↦
    hd e.1 e.2 (Table.get?_eq_some_iff.2 he)
  rw [refineAttributes]
  generalize d.attributes.entries = entries at hmem
  induction entries generalizing t with
  | nil => exact ht
  | cons e rest ih =>
    exact ih (refineAttribute_all ht (hmem e List.mem_cons_self) e.1)
      fun f hf ↦ hmem f (List.mem_cons_of_mem e hf)

/-- The attributes of a lineage refer to what its definitions refer to. -/
theorem lineageAttributes_all {chain : List Definition} (h : ∀ d ∈ chain, d.RefersInto names) :
    (lineageAttributes chain).All (Attribute.RefersInto names) := by
  rw [lineageAttributes]
  suffices key : ∀ t : Table Attribute, t.All (Attribute.RefersInto names) →
      (chain.foldl refineAttributes t).All (Attribute.RefersInto names) from key _ Table.all_empty
  induction chain with
  | nil => exact fun t ht ↦ ht
  | cons d rest ih =>
    exact fun t ht ↦ ih (fun d hd ↦ h d (List.mem_cons_of_mem _ hd)) _
      (refineAttributes_all ht (h d List.mem_cons_self))

/-! ### Entities -/

/-- The attributes of an entity are those of its lineage. -/
theorem attributes_of_ofLineage {chain : List Definition}
    (h : Entity.ofLineage categories chain d = .ok e) : e.attributes = lineageAttributes chain := by
  unfold Entity.ofLineage at h
  cases hkind : d.kind <;> rw [hkind] at h
  all_goals
    obtain ⟨⟨category, uid, classUid⟩, -, h⟩ := bind_eq_ok h
    cases h
    rfl

/-- The entity of a name has the attributes of its lineage. -/
theorem attributes_of_ofName (h : Entity.ofName definitions categories n = .ok e) :
    ∃ chain, lineage definitions n = .ok chain ∧ e.attributes = lineageAttributes chain := by
  obtain ⟨chain, hchain, h⟩ := bind_eq_ok h
  refine ⟨chain, hchain, ?_⟩
  split at h
  · exact attributes_of_ofLineage h
  · cases h

/-- An entity refers to what the definitions refer to. -/
theorem Entity.ofName_refersInto (hall : definitions.All (Definition.RefersInto names))
    (h : Entity.ofName definitions categories n = .ok e) : e.RefersInto names := by
  obtain ⟨chain, hchain, he⟩ := attributes_of_ofName h
  rw [Entity.RefersInto, he]
  refine lineageAttributes_all fun d hd ↦ ?_
  obtain ⟨m, hm⟩ := mem_of_lineage hchain hd
  exact hall m d hm

/-! ### All entities -/

/-- A table holds the entities of some names. -/
structure HoldsEntities (definitions : Table Definition) (categories : Table Uid)
    (names : List String) (t : Table Entity) : Prop where
  get?_iff : ∀ n e, t.get? n = some e ↔ n ∈ names ∧ Entity.ofName definitions categories n = .ok e
  mem_names : ∀ n ∈ names, n ∈ t.names

theorem holdsEntities_empty : HoldsEntities definitions categories [] .empty :=
  ⟨fun _ _ ↦ ⟨nofun, fun h ↦ absurd h.1 List.not_mem_nil⟩, fun _ h ↦ absurd h List.not_mem_nil⟩

/-- Working out one more entity. -/
theorem HoldsEntities.resolve {known t : Table Entity} {j : Journal}
    (hknown : HoldsEntities definitions categories names known)
    (h : (execute (EventSchema.resolve definitions categories known n) j).1 = .ok (e, t)) :
    HoldsEntities definitions categories (names ++ [n]) t := by
  unfold EventSchema.resolve at h
  split at h
  -- the entity is there already, or is worked out and added
  · next standing hn =>
    cases h
    have hmem : n ∈ names := ((hknown.get?_iff n e).1 hn).1
    have hiff : ∀ m, m ∈ names ++ [n] ↔ m ∈ names := fun m ↦ by
      simpa using fun hm : m = n ↦ hm ▸ hmem
    exact ⟨fun m f ↦ by rw [hiff, hknown.get?_iff], fun m hm ↦ hknown.mem_names m ((hiff m).1 hm)⟩
  · obtain ⟨found, _, hfound, h⟩ := execute_bind_eq_ok h
    obtain ⟨⟨⟩, _, -, h⟩ := execute_bind_eq_ok h
    cases h
    have hof : Entity.ofName definitions categories n = .ok e := (Prod.mk.inj hfound).1
    refine ⟨fun m f ↦ ?_, fun m hm ↦ ?_⟩
    · rw [Table.get?_put, List.mem_append, List.mem_singleton]
      split
      · next hnm =>
        subst hnm
        simp [hof]
      · next hnm =>
        rw [hknown.get?_iff, or_iff_left (Ne.symm hnm)]
    · rw [Table.mem_names_put]
      exact (List.mem_append.1 hm).imp (hknown.mem_names m) List.mem_singleton.1

/-- Names that are resolved one after another add their entities to those that are known. -/
theorem HoldsEntities.resolveNames {known t : Table Entity} {rest : List String} {j : Journal}
    (hknown : HoldsEntities definitions categories names known)
    (h : (execute (EventSchema.resolveNames definitions categories known rest) j).1 = .ok t) :
    HoldsEntities definitions categories (names ++ rest) t := by
  induction rest generalizing names known j with
  | nil =>
    cases h
    rwa [List.append_nil]
  | cons n rest ih =>
    obtain ⟨⟨e, next⟩, _, hn, h⟩ := execute_bind_eq_ok h
    have hnext := hknown.resolve (congrArg Prod.fst hn)
    rw [List.append_cons]
    exact ih hnext h

/-- Each definition gets its entity, and nothing else is there. -/
theorem resolveAll_holdsEntities {t : Table Entity} {j : Journal}
    (h : (execute (resolveAll definitions categories) j).1 = .ok t) :
    HoldsEntities definitions categories definitions.names t :=
  holdsEntities_empty.resolveNames h

/-- A table of entities has the names that it holds. -/
theorem HoldsEntities.mem_names_iff {t : Table Entity}
    (h : HoldsEntities definitions categories names t) : n ∈ t.names ↔ n ∈ names := by
  refine ⟨fun hn ↦ ?_, h.mem_names n⟩
  obtain ⟨e, he⟩ := Table.mem_names_iff.1 hn
  exact ((h.get?_iff n e).1 he).1

/-- Entities refer to what the definitions refer to. -/
theorem HoldsEntities.all {objects : List String} {t : Table Entity}
    (h : HoldsEntities definitions categories names t)
    (hall : definitions.All (Definition.RefersInto objects)) : t.All (Entity.RefersInto objects) :=
  fun n e he ↦ Entity.ofName_refersInto hall ((h.get?_iff n e).1 he).2

/-! ### Schemas -/

section Resolve

variable {c : Catalog} {s : Schema} {j : Journal}

/-- A schema holds the entities of the definitions of its catalog, and has its version and its
enumerations. -/
theorem schema_of_resolve (h : (execute c.resolve j).1 = .ok s) : ∃ objects events,
    HoldsEntities c.objects .empty c.objects.names objects ∧
      HoldsEntities c.events c.categories c.events.names events ∧
      s = ⟨c.version, objects, events, c.enums⟩ := by
  obtain ⟨objects, _, hobjects, h⟩ := execute_bind_eq_ok h
  obtain ⟨events, _, hevents, h⟩ := execute_bind_eq_ok h
  obtain ⟨⟨⟩, _, -, h⟩ := execute_bind_eq_ok h
  cases h
  exact ⟨objects, events, resolveAll_holdsEntities (congrArg Prod.fst hobjects),
    resolveAll_holdsEntities (congrArg Prod.fst hevents), rfl⟩

/-- A resolved schema holds the entities of all objects and event classes. -/
theorem entities_of_resolve (h : (execute c.resolve j).1 = .ok s) :
    HoldsEntities c.objects .empty c.objects.names s.objects ∧
      HoldsEntities c.events c.categories c.events.names s.events := by
  obtain ⟨objects, events, hobjects, hevents, rfl⟩ := schema_of_resolve h
  exact ⟨hobjects, hevents⟩

theorem Catalog.version_of_resolve (h : (execute c.resolve j).1 = .ok s) :
    s.version = c.version := by
  obtain ⟨_, _, -, -, rfl⟩ := schema_of_resolve h
  rfl

theorem Catalog.enums_of_resolve (h : (execute c.resolve j).1 = .ok s) : s.enums = c.enums := by
  obtain ⟨_, _, -, -, rfl⟩ := schema_of_resolve h
  rfl

/-- A resolved schema refers to its own objects. -/
theorem Catalog.TargetsDefined.resolve (hc : c.TargetsDefined)
    (h : (execute c.resolve j).1 = .ok s) :
    s.TargetsDefined := by
  obtain ⟨hobjects, hevents⟩ := entities_of_resolve h
  have hinto : ∀ e : Entity, e.RefersInto c.objects.names → e.RefersInto s.objects.names :=
    fun e he ↦ he.mono fun a ha object htarget ↦ hobjects.mem_names_iff.2 (ha object htarget)
  exact ⟨(hobjects.all hc.objects).mono hinto, (hevents.all hc.events).mono hinto⟩

end Resolve

/-! ### Failures -/

variable {x : LineageError}

/-- What a failure says of definitions: no value was asked for members that it does not have, and an
identifier that is out of range is that of a definition. -/
structure LineageError.IsOf (definitions : Table Definition) (x : LineageError) : Prop where
  shape : ∀ y, x = .shape y → y.isMembersExpected = false
  uid : ∀ uid, x = .uidOutOfRange uid →
    ∃ m d, definitions.get? m = some d ∧ d.uid = some uid ∧ categorySize ≤ uid.toInt

/-- Looking up a name asks no value for members. -/
theorem Json.lookupName_error {v : Json} {y : ShapeError} (h : v.lookupName = .error y) :
    y.isMembersExpected = false := by
  cases v <;> cases h <;> rfl

/-- A walk asks no definition for members, and numbers nothing. -/
theorem lineageFrom_error {origin : String} {fuel : Nat} {walk : List String}
    {below : List Definition} (h : lineageFrom definitions origin fuel walk below n = .error x) :
    x.IsOf definitions := by
  induction fuel generalizing walk below n with
  | zero =>
    cases h
    exact ⟨nofun, nofun⟩
  | succ fuel ih =>
    unfold lineageFrom at h
    split at h
    · cases h
      exact ⟨nofun, nofun⟩
    · rcases hn : definitions.get? n with _ | member <;> rw [hn] at h
      · cases below <;> cases h <;> exact ⟨nofun, nofun⟩
      · dsimp only at h
        split at h
        · cases h
        · exact ih h

/-- A category that is not known says nothing of the definitions. -/
theorem categoryUid_error {event : String} {category : Json}
    (h : categoryUid categories event category = .error x) : x.IsOf definitions := by
  unfold categoryUid at h
  split at h
  · cases h
  · rcases bind_eq_error h with h | ⟨found, -, h⟩
    · obtain ⟨y, hy, rfl⟩ := mapError_eq_error h
      refine ⟨fun y' heq ↦ ?_, nofun⟩
      cases heq
      exact Json.lookupName_error hy
    · rcases found with _ | name
      · cases h
        exact ⟨nofun, nofun⟩
      · dsimp only at h
        split at h <;> cases h
        exact ⟨nofun, nofun⟩

/-- An identifier that is out of range is that of a definition. -/
theorem eventUids_error {chain : List Definition} (hd : definitions.get? n = some d)
    (h : eventUids categories chain d = .error x) : x.IsOf definitions := by
  unfold eventUids at h
  by_cases hnull : (lineageCategory chain).isNull = true
  · simp only [if_pos hnull] at h
    split at h <;> cases h
    exact ⟨nofun, nofun⟩
  · simp only [if_neg hnull] at h
    rcases bind_eq_error h with h | ⟨⟨name, uid⟩, -, h⟩
    · exact categoryUid_error h
    · rcases huid : d.uid with _ | own <;> rw [huid] at h
      · cases h
      · rcases bind_eq_error h with h | ⟨own', -, h⟩
        · unfold scopedUid at h
          split at h
          · cases h
          · next hlarge =>
            cases h
            refine ⟨nofun, fun uid' heq ↦ ?_⟩
            cases heq
            exact ⟨n, d, hd, huid, Int.not_lt.1 hlarge⟩
        · cases h

/-- What fails for an entity says so of its definitions. -/
theorem Entity.ofName_error (h : Entity.ofName definitions categories n = .error x) :
    x.IsOf definitions := by
  rcases bind_eq_error h with h | ⟨chain, hchain, h⟩
  · exact lineageFrom_error h
  · split at h
    · next d hlast =>
      obtain ⟨m, hm⟩ := mem_of_lineage hchain (List.mem_of_getLast? hlast)
      unfold Entity.ofLineage at h
      cases hkind : d.kind with
      | event =>
        rw [hkind] at h
        rcases bind_eq_error h with h | ⟨uids, -, h⟩
        · exact eventUids_error hm h
        · cases h
      | object =>
        rw [hkind] at h
        rcases bind_eq_error h with h | ⟨uids, -, h⟩ <;> cases h
    · cases h
      exact ⟨nofun, nofun⟩

/-- Working out entities fails where one of them does. -/
theorem exists_of_resolveNames_error {known : Table Entity} {names : List String} {j : Journal}
    (h : (execute (resolveNames definitions categories known names) j).1 = .error x) :
    ∃ n ∈ names, Entity.ofName definitions categories n = .error x := by
  induction names generalizing known j with
  | nil => cases h
  | cons n names ih =>
    rcases execute_bind_eq_error h with ⟨j', h⟩ | ⟨next, j', -, h⟩
    · refine ⟨n, List.mem_cons_self, ?_⟩
      unfold EventSchema.resolve at h
      split at h
      · cases h
      · rcases execute_bind_eq_error (congrArg Prod.fst h) with ⟨_, h⟩ | ⟨e, _, -, h⟩
        · exact congrArg Prod.fst h
        · cases h
    · obtain ⟨m, hm, h⟩ := ih h
      exact ⟨m, List.mem_cons_of_mem n hm, h⟩

/-- What fails while a catalog is resolved says so of its objects or its event classes. -/
theorem Catalog.resolve_error {c : Catalog} {j : Journal}
    (h : (execute c.resolve j).1 = .error x) : x.IsOf c.objects ∨ x.IsOf c.events := by
  rcases execute_bind_eq_error h with ⟨_, h⟩ | ⟨objects, _, -, h⟩
  · obtain ⟨n, -, h⟩ := exists_of_resolveNames_error (congrArg Prod.fst h)
    exact .inl (Entity.ofName_error h)
  rcases execute_bind_eq_error h with ⟨_, h⟩ | ⟨events, _, -, h⟩
  · obtain ⟨n, -, h⟩ := exists_of_resolveNames_error (congrArg Prod.fst h)
    exact .inr (Entity.ofName_error h)
  · cases h

/-- The version of a catalog goes into the schema and is not looked at. -/
theorem Catalog.resolve_version (c : Catalog) (version : Json) (j : Journal) :
    execute { c with version := version }.resolve j =
      ((execute c.resolve j).1.map fun s ↦ { s with version := version },
        (execute c.resolve j).2) := by
  unfold Catalog.resolve
  rw [execute_bind, execute_bind]
  rcases execute (resolveAll c.objects .empty) j with ⟨_ | objects, j₁⟩
  · rfl
  dsimp only
  rw [execute_bind, execute_bind]
  rcases execute (resolveAll c.events c.categories) j₁ with ⟨_ | events, j₂⟩
  · rfl
  · rfl

theorem Catalog.resolve_version_error_iff {c : Catalog} {version : Json} :
    { c with version := version }.resolve.outcome.1 = .error x ↔
    c.resolve.outcome.1 = .error x := by
  rw [Reporting.outcome_eq, Reporting.outcome_eq, Catalog.resolve_version]
  rcases (execute c.resolve []).1 with y | s
  · rfl
  · exact ⟨nofun, nofun⟩

end EventSchema
