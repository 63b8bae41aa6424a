import EventSchema.Proofs.Catalog.Items
import EventSchema.Proofs.Catalog.Lineages

/-!
# Entities and attributes under their own names

Reading enters each definition under its own name, with the kind of the table it is entered in. The
last member of a lineage is the definition whose name was asked for, so inheritance keeps names and
kinds, and a schema holds its entities under their own names (`Schema.keyed_of_read`). In the same
way every attribute is entered under its own name, and refining keeps it
(`Schema.keyedAttributes_of_read`).
-/

namespace EventSchema

variable {definitions : Table Definition} {categories : Table Uid} {n : String}
  {d : Definition} {e : Entity}

/-- A schema holds its objects and event classes under their own names, and no object has an empty
name. -/
structure Schema.Keyed (s : Schema) : Prop where
  objects : ∀ n e, s.objects.get? n = some e → e.name = n ∧ e.kind = .object ∧ n ≠ ""
  events : ∀ n e, s.events.get? n = some e → e.name = n ∧ e.kind = .event

/-- A table of definitions of one kind, under their own names. -/
def KeyedDefinitions (kind : EntityKind) (definitions : Table Definition) : Prop :=
  ∀ n d, definitions.get? n = some d → d.name = n ∧ d.kind = kind

namespace Catalog

variable {dict : Dictionary} {kind : EntityKind}

/-- Definitions are read under their own names. -/
theorem keyed_of_readDefinitions {read t : Table Definition} {items : List ResolvedItem}
    (hread : KeyedDefinitions kind read) (h : readDefinitions dict kind read items = .ok t) :
    KeyedDefinitions kind t := by
  induction items generalizing read with
  | nil =>
    cases h
    exact hread
  | cons item items ih =>
    obtain ⟨d, hd, h⟩ := bind_eq_ok h
    have hof := readDefinition_ok hd
    refine ih (fun n d' hn ↦ ?_) h
    rw [Table.get?_put] at hn
    split at hn
    · next hitem =>
      cases hn
      exact ⟨hof.name.trans hitem, hof.kind_eq⟩
    · exact hread n d' hn

end Catalog

/-- The ancestors that a name leads to, root first, and its own definition. -/
inductive Descends (definitions : Table Definition) : String → List Definition → Definition → Prop
  | root {n : String} {d : Definition} :
    definitions.get? n = some d → d.ancestor = none → Descends definitions n [] d
  | child {n m : String} {d parent : Definition} {ancestors : List Definition} :
    definitions.get? n = some d → d.ancestor = some m → Descends definitions m ancestors parent →
      Descends definitions n (ancestors ++ [parent]) d

/-- A name that descends from ancestors is defined. -/
theorem Descends.get? {ancestors : List Definition} (h : Descends definitions n ancestors d) :
    definitions.get? n = some d := by
  cases h <;> assumption

/-- A lineage is that of the name at which its walk is. -/
theorem descends_of_lineageFrom {origin : String} {fuel : Nat} {walk : List String}
    {below chain : List Definition}
    (h : lineageFrom definitions origin fuel walk below n = .ok chain) :
    ∃ ancestors d, Descends definitions n ancestors d ∧ chain = ancestors ++ d :: below := by
  induction fuel generalizing walk below n with
  | zero => cases h
  | succ fuel ih =>
    unfold lineageFrom at h
    split at h
    · cases h
    · rcases hn : definitions.get? n with _ | member <;> rw [hn] at h
      · cases below <;> cases h
      · dsimp only at h
        split at h
        · next hroot =>
          cases h
          exact ⟨[], member, .root hn hroot, rfl⟩
        · next m hchild =>
          obtain ⟨ancestors, d, hd, hchain⟩ := ih h
          exact ⟨ancestors ++ [d], member, .child hn hchild hd,
            by rw [hchain, List.append_assoc, List.singleton_append]⟩

/-- A lineage is made of the ancestors of the name that it was begun with, and ends in its
definition. -/
theorem descends_of_lineage {chain : List Definition} (h : lineage definitions n = .ok chain) :
    ∃ ancestors d, Descends definitions n ancestors d ∧ chain = ancestors ++ [d] :=
  descends_of_lineageFrom h

/-- An entity has the name and the kind of its definition. -/
theorem name_of_ofLineage {chain : List Definition}
    (h : Entity.ofLineage categories chain d = .ok e) :
    e.name = d.name ∧ e.kind = d.kind := by
  unfold Entity.ofLineage at h
  cases hkind : d.kind <;> rw [hkind] at h
  all_goals
    obtain ⟨⟨category, uid, classUid⟩, -, h⟩ := bind_eq_ok h
    cases h
    exact ⟨rfl, rfl⟩

/-- An entity has the name and the kind of its definition. -/
theorem exists_definition_of_ofName (h : Entity.ofName definitions categories n = .ok e) :
    ∃ d, definitions.get? n = some d ∧ e.name = d.name ∧ e.kind = d.kind := by
  obtain ⟨chain, hchain, h⟩ := bind_eq_ok h
  obtain ⟨ancestors, d, hd, rfl⟩ := descends_of_lineage hchain
  rw [List.getLast?_concat] at h
  exact ⟨d, hd.get?, name_of_ofLineage h⟩

/-- Entities are held under their own names if definitions are. -/
theorem HoldsEntities.keyed {kind : EntityKind} {names : List String} {t : Table Entity}
    (h : HoldsEntities definitions categories names t) (hkeyed : KeyedDefinitions kind definitions)
    (he : t.get? n = some e) : e.name = n ∧ e.kind = kind := by
  obtain ⟨d, hd, hname, hkind⟩ := exists_definition_of_ofName ((h.get?_iff n e).1 he).2
  obtain ⟨hdname, hdkind⟩ := hkeyed n d hd
  exact ⟨hname.trans hdname, hkind.trans hdkind⟩

/-- What was read and worked out stands under its own name. -/
theorem Schema.keyed_of_read {tree : FileTree} {path : Path} {c : Catalog}
    {s : Schema} {j j' : Journal} (hread : (execute (Catalog.read tree path) j).1 = .ok c)
    (hresolve : (execute c.resolve j').1 = .ok s) :
    s.Keyed := by
  obtain ⟨dict, objectItems, eventItems, -, -, hobjects, hevents⟩ :=
    Catalog.definitions_of_read hread
  obtain ⟨hobjectEntities, heventEntities⟩ := entities_of_resolve hresolve
  have hempty : ∀ kind, KeyedDefinitions kind .empty := fun _ _ _ h ↦ by cases h
  refine ⟨fun n e he ↦ ?_, fun n e he ↦ ?_⟩
  · obtain ⟨hname, hkind⟩ :=
      hobjectEntities.keyed (Catalog.keyed_of_readDefinitions (hempty .object) hobjects) he
    refine ⟨hname, hkind, fun hn ↦ Catalog.empty_not_mem_names hread ?_⟩
    exact hn ▸ ((hobjectEntities.get?_iff n e).1 he).1
  · exact heventEntities.keyed (Catalog.keyed_of_readDefinitions (hempty .event) hevents) he

/-! ### Attributes -/

/-- A table of attributes under their own names. -/
def KeyedAttributes (t : Table Attribute) : Prop := ∀ key a, t.get? key = some a → a.name = key

variable {t : Table Attribute} {key : String} {a : Attribute}

theorem keyedAttributes_empty : KeyedAttributes .empty := fun _ _ h ↦ by cases h

/-- An attribute is put under its own name. -/
theorem KeyedAttributes.put (ht : KeyedAttributes t) (ha : a.name = key) :
    KeyedAttributes (t.put key a) := by
  intro m b hm
  rw [Table.get?_put] at hm
  split at hm
  · next hkey =>
    cases hm
    exact ha.trans hkey
  · exact ht m b hm

theorem KeyedAttributes.putNew (ht : KeyedAttributes t) (ha : a.name = key) :
    KeyedAttributes (t.putNew key a) := by
  rw [Table.putNew]
  split
  · exact ht
  · exact ht.put ha

/-- The name of an attribute is among the names of its table. -/
theorem KeyedAttributes.mem_names (ht : KeyedAttributes t) (ha : a ∈ t.values) :
    a.name ∈ t.names := by
  obtain ⟨key, hkey⟩ := Table.mem_values_iff.1 ha
  rw [ht key a hkey]
  exact Table.mem_names_iff.2 ⟨a, hkey⟩

/-- An attribute is found under its own name. -/
theorem KeyedAttributes.get?_name (ht : KeyedAttributes t) (ha : a ∈ t.values) :
    t.get? a.name = some a := by
  obtain ⟨key, hkey⟩ := Table.mem_values_iff.1 ha
  rwa [ht key a hkey]

namespace Catalog

variable {dict : Dictionary} {place : String} {kind : EntityKind}

/-- Attributes are read under their own names. -/
theorem readAttributes_keyed {read t : Table Attribute} {values : List (String × Json)}
    (hread : KeyedAttributes read) (h : readAttributes dict place read values = .ok t) :
    KeyedAttributes t := by
  induction values generalizing read with
  | nil =>
    cases h
    exact hread
  | cons e rest ih =>
    obtain ⟨a, ha, h⟩ := bind_eq_ok h
    exact ih (hread.put (readAttribute_ok ha).named) h

/-- Companions are added under their own names. -/
theorem addCompanions_keyed (ht : KeyedAttributes t) : KeyedAttributes (addCompanions t) := by
  rw [addCompanions]
  generalize t.values.filter _ = timestamps
  induction timestamps generalizing t with
  | nil => exact ht
  | cons a rest ih => exact ih (ht.putNew rfl)

/-- The attributes of a definition are read under their own names. -/
theorem readDefinition_keyed {item : ResolvedItem} (h : readDefinition dict kind item = .ok d) :
    KeyedAttributes d.attributes := by
  obtain ⟨place, read, hread, hd⟩ := (readDefinition_ok h).attributes
  have hkeyed := readAttributes_keyed keyedAttributes_empty hread
  rw [hd]
  split
  · exact addCompanions_keyed hkeyed
  · exact hkeyed

end Catalog

/-- A refined attribute keeps its name. -/
theorem name_foldl_refine {first : Attribute} {rest : List Attribute}
    (hall : ∀ b ∈ first :: rest, b.name = key) :
    (rest.foldl Attribute.refine first).name = key := by
  induction rest generalizing first with
  | nil => exact hall first List.mem_cons_self
  | cons b rest ih =>
    refine ih fun c hc ↦ ?_
    rcases List.mem_cons.1 hc with rfl | hc
    -- a refined attribute has the name of the later definition
    · exact hall b (List.mem_cons_of_mem _ List.mem_cons_self)
    · exact hall c (List.mem_cons_of_mem _ (List.mem_cons_of_mem _ hc))

/-- The attributes of a lineage stand under their own names. -/
theorem keyed_lineageAttributes {chain : List Definition}
    (h : ∀ d ∈ chain, KeyedAttributes d.attributes) :
    KeyedAttributes (lineageAttributes chain) := by
  intro key a ha
  obtain ⟨first, rest, hdefiners, rfl⟩ := exists_definers_of_get? ha
  refine name_foldl_refine fun b hb ↦ ?_
  obtain ⟨d, hd, hget⟩ := List.mem_filterMap.1 (hdefiners ▸ hb : b ∈ definers chain key)
  exact h d hd key b hget

/-- The attributes of entities stand under their own names if those of definitions do. -/
theorem HoldsEntities.keyedAttributes {names : List String} {entities : Table Entity}
    (h : HoldsEntities definitions categories names entities)
    (hall : definitions.All fun d ↦ KeyedAttributes d.attributes) :
    entities.All fun e ↦ KeyedAttributes e.attributes := by
  intro n e he
  obtain ⟨chain, hchain, hattributes⟩ := attributes_of_ofName ((h.get?_iff n e).1 he).2
  rw [hattributes]
  refine keyed_lineageAttributes fun d hd ↦ ?_
  obtain ⟨m, hm⟩ := mem_of_lineage hchain hd
  exact hall m d hm

/-- What was read and worked out has its attributes under their own names. -/
theorem Schema.keyedAttributes_of_read {tree : FileTree} {path : Path} {c : Catalog}
    {s : Schema} {j j' : Journal} (hread : (execute (Catalog.read tree path) j).1 = .ok c)
    (hresolve : (execute c.resolve j').1 = .ok s) :
    (s.objects.All fun e ↦ KeyedAttributes e.attributes) ∧
    s.events.All fun e ↦ KeyedAttributes e.attributes := by
  obtain ⟨dict, objectItems, eventItems, -, -, hobjects, hevents⟩ :=
    Catalog.definitions_of_read hread
  obtain ⟨hobjectEntities, heventEntities⟩ := entities_of_resolve hresolve
  have hkeyed : ∀ kind item d, Catalog.readDefinition dict kind item = .ok d →
      KeyedAttributes d.attributes :=
    fun _ _ _ ↦ Catalog.readDefinition_keyed
  exact ⟨hobjectEntities.keyedAttributes
    (Catalog.readDefinitions_all (fun _ _ ↦ hkeyed _ _) Table.all_empty hobjects),
    heventEntities.keyedAttributes
      (Catalog.readDefinitions_all (fun _ _ ↦ hkeyed _ _) Table.all_empty hevents)⟩

end EventSchema
