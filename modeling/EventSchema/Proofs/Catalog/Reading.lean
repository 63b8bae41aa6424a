import EventSchema.Catalog.Reading
import EventSchema.Proofs.Computation
import EventSchema.Proofs.Tables

/-!
# What reading guarantees of references

A catalog is read entity by entity, and every attribute is checked against the names of the objects
when it is read. `RefersInto` is what the check guarantees of an attribute; it passes through the
tables that reading fills up, companions of timestamps included, to the catalog as a whole
(`read_targetsDefined`).
-/

namespace EventSchema

/-- If an attribute refers to an object, it is one of the given names. -/
def Attribute.RefersInto (names : List String) (a : Attribute) : Prop :=
  ∀ object, a.target = some object → object ∈ names

/-- All attributes of a definition refer to given names. -/
def Definition.RefersInto (names : List String) (d : Definition) : Prop :=
  d.attributes.All (Attribute.RefersInto names)

/-- All attributes of all definitions refer to objects of the catalog. -/
structure Catalog.TargetsDefined (c : Catalog) : Prop where
  objects : c.objects.All (Definition.RefersInto c.objects.names)
  events : c.events.All (Definition.RefersInto c.objects.names)

namespace Catalog

variable {dict : Dictionary} {place name object : String} {value target : Json} {a : Attribute}
  {kind : EntityKind} {d : Definition}

/-! ### Attributes -/

theorem ofShape_membersFor (members : Entries Json) (key : String) :
    ofShape ((Json.obj members).membersFor key) = .ok members := rfl

/-- A type that is written like a scalar type is one, whether or not the dictionary lists it. -/
theorem readType_of_scalar {details : Entries Json} {type : String}
    (htype : details.get? "type" = some (.str type)) (hne : type ≠ referenceType)
    (hscalar : ScalarType.isScalarName type = true) :
    readType dict place name details = .ok (type, .null) := by
  rw [readType, htype]
  simp [hne, hscalar]

theorem readTarget_mem (h : readTarget dict place name target = .ok (some object)) :
    object ∈ dict.objects := by
  unfold readTarget at h
  split at h
  · cases h
  · obtain ⟨found, -, h⟩ := bind_eq_ok h
    cases found with
    | none => cases h
    | some found =>
      dsimp only at h
      split at h
      · next hmem =>
        cases h
        exact List.contains_iff_mem.1 hmem
      · cases h

/-- What an attribute takes from its details, which are those of the dictionary with those of its
owner laid over: its target was looked up, and it is optional if it is of a profile. -/
structure AttributeOf (dict : Dictionary) (place name : String) (value : Json)
    (a : Attribute) : Prop where
  named : a.name = name
  target : ∃ stated, readTarget dict place name stated = .ok a.target
  requirement : a.profile.isGiven = true → a.requirement = .str Attribute.optionalWord
  values : ∃ standing details, dict.attributes.get? name = some standing ∧
    (standing.merge value).membersFor "get" = .ok details ∧
    readEnum ((Entries.get? details "enum").getD .null) = .ok a.enumValues

theorem readAttribute_ok (h : readAttribute dict place name value = .ok a) :
    AttributeOf dict place name value a := by
  unfold readAttribute at h
  split at h
  · split at h
    · next standing hstanding =>
      obtain ⟨details, hdetails, h⟩ := bind_eq_ok h
      obtain ⟨⟨scalarType, stated⟩, -, h⟩ := bind_eq_ok h
      obtain ⟨target, htarget, h⟩ := bind_eq_ok h
      obtain ⟨description, -, h⟩ := bind_eq_ok h
      obtain ⟨values, hvalues, h⟩ := bind_eq_ok h
      obtain ⟨deprecation, -, h⟩ := bind_eq_ok h
      cases h
      exact ⟨rfl, ⟨stated, htarget⟩, fun hprofile ↦ if_pos hprofile,
        ⟨standing, details, hstanding, mapError_eq_ok hdetails, mapError_eq_ok hvalues⟩⟩
    · cases h
  · cases h

theorem readAttribute_refersInto (h : readAttribute dict place name value = .ok a) :
    a.RefersInto dict.objects := by
  obtain ⟨stated, htarget⟩ := (readAttribute_ok h).target
  intro object hobject
  rw [hobject] at htarget
  exact readTarget_mem htarget

theorem readAttributes_all {P : Attribute → Prop}
    (hattribute : ∀ name value a, readAttribute dict place name value = .ok a → P a)
    {read : Table Attribute} (hread : read.All P) {values : List (String × Json)}
    {t : Table Attribute} (h : readAttributes dict place read values = .ok t) : t.All P := by
  induction values generalizing read with
  | nil =>
    cases h
    exact hread
  | cons e rest ih =>
    obtain ⟨a, ha, h⟩ := bind_eq_ok h
    exact ih (hread.put (hattribute _ _ a ha) _) h

/-- The companion of a timestamp refers to nothing. -/
theorem companion_refersInto (names : List String) (a : Attribute) :
    (companion a).RefersInto names := fun _ h ↦ by cases h

theorem addCompanions_all {P : Attribute → Prop} (hcompanion : ∀ a, P (companion a))
    {t : Table Attribute} (h : t.All P) : (addCompanions t).All P := by
  rw [addCompanions]
  generalize t.values.filter _ = timestamps
  induction timestamps generalizing t with
  | nil => exact h
  | cons a rest ih => exact ih (h.putNew (hcompanion a) _)

/-! ### Definitions -/

/-- What a definition takes from its item: the name, and the attributes, with companions if there
are any. The definition of an event class has the identifier of its item, and is hidden if that
gives none. -/
structure DefinitionOf (dict : Dictionary) (kind : EntityKind) (item : ResolvedItem)
    (d : Definition) : Prop where
  name : d.name = item.name
  kind_eq : d.kind = kind
  attributes : ∃ place read, readAttributes dict place .empty item.attributes = .ok read ∧
    d.attributes = if dict.hasDatetime then addCompanions read else read
  event : kind = .event →
    d.isHidden = isHiddenEvent item.name item.members ∧
    ∃ place, readUid place item.members = .ok d.uid
  object : kind = .object → d.isHidden = isHiddenObject item.name ∧ d.uid = none

theorem readDefinition_ok {item : ResolvedItem} (h : readDefinition dict kind item = .ok d) :
    DefinitionOf dict kind item d := by
  obtain ⟨closed, -, h⟩ := bind_eq_ok h
  obtain ⟨ancestor, -, h⟩ := bind_eq_ok h
  obtain ⟨attributes, hattributes, h⟩ := bind_eq_ok h
  cases kind with
  | event =>
    obtain ⟨uid, huid, h⟩ := bind_eq_ok h
    obtain ⟨description, -, h⟩ := bind_eq_ok h
    cases h
    exact ⟨rfl, rfl, ⟨_, attributes, hattributes, rfl⟩, fun _ ↦ ⟨rfl, _, huid⟩, nofun⟩
  | object =>
    obtain ⟨uid, huid, h⟩ := bind_eq_ok h
    obtain ⟨description, -, h⟩ := bind_eq_ok h
    cases h
    exact ⟨rfl, rfl, ⟨_, attributes, hattributes, rfl⟩, nofun,
      fun _ ↦ ⟨rfl, (Except.ok.inj huid).symm⟩⟩

/-- An item gives its own identifier, or none or null, which counts as none. -/
theorem uid_of_readUid {members : Entries Json} {uid : Option Uid}
    (h : readUid place members = .ok uid) :
    (uid = none ∧ ∀ v, members.get? "uid" = some v → v = .null) ∨
      ∃ own : Uid, uid = some own ∧ members.get? "uid" = some own.toJson := by
  unfold readUid at h
  cases hget : members.get? "uid" with
  | none =>
    rw [hget] at h
    cases h
    exact .inl ⟨rfl, fun v hv ↦ by cases hv⟩
  | some v =>
    rw [hget] at h
    cases v with
    | null =>
      cases h
      exact .inl ⟨rfl, fun v hv ↦ (Option.some.inj hv).symm⟩
    | bool b =>
      cases h
      exact .inr ⟨.truth b, rfl, rfl⟩
    | int n =>
      cases h
      exact .inr ⟨.number n, rfl, rfl⟩
    | _ => cases h

/-- What holds of every attribute that is read, and of the companions, holds of those of a
definition. -/
theorem readDefinition_all {P : Attribute → Prop}
    (hattribute : ∀ place name value a, readAttribute dict place name value = .ok a → P a)
    (hcompanion : ∀ a, P (companion a)) {item : ResolvedItem}
    (h : readDefinition dict kind item = .ok d) :
    d.attributes.All P := by
  obtain ⟨place, read, hread, hd⟩ := (readDefinition_ok h).attributes
  have hall := readAttributes_all (hattribute place) Table.all_empty hread
  rw [hd]
  split
  · exact addCompanions_all hcompanion hall
  · exact hall

theorem readDefinition_refersInto {item : ResolvedItem}
    (h : readDefinition dict kind item = .ok d) : d.RefersInto dict.objects :=
  readDefinition_all (fun _ _ _ _ ↦ readAttribute_refersInto) (companion_refersInto dict.objects) h

/-- What holds of the definition of every item holds of all definitions. -/
theorem readDefinitions_all {P : Definition → Prop} {read t : Table Definition}
    {items : List ResolvedItem}
    (hitem : ∀ item ∈ items, ∀ d, readDefinition dict kind item = .ok d → P d) (hread : read.All P)
    (h : readDefinitions dict kind read items = .ok t) : t.All P := by
  induction items generalizing read with
  | nil =>
    cases h
    exact hread
  | cons item rest ih =>
    obtain ⟨d, hd, h⟩ := bind_eq_ok h
    exact ih (fun item' hmem ↦ hitem item' (List.mem_cons_of_mem item hmem))
      (hread.put (hitem item List.mem_cons_self d hd) _) h

/-- Every item gives a definition of its name. -/
theorem mem_names_readDefinitions {read t : Table Definition} {items : List ResolvedItem}
    (h : readDefinitions dict kind read items = .ok t) {n : String} :
    n ∈ t.names ↔ n ∈ read.names ∨ n ∈ items.map (·.name) := by
  induction items generalizing read with
  | nil =>
    cases h
    simp
  | cons item rest ih =>
    obtain ⟨d, -, h⟩ := bind_eq_ok h
    rw [ih h, Table.mem_names_put, List.map_cons, List.mem_cons, or_assoc]

/-! ### Shared enumerations -/

/-- A dictionary without attributes whose names end like those of enumerations has no enumerations
to share. -/
theorem readSharedEnums_of_plain {attributes : Entries Json}
    (h : ∀ v ∈ attributes, v.1.endsWith "_id" = false) :
    readSharedEnums attributes = .ok .empty := by
  have hfrom {values : List (String × Json)} (hvalues : ∀ v ∈ values, v.1.endsWith "_id" = false) :
      readSharedEnumsFrom .empty values = .ok .empty := by
    induction values with
    | nil => rfl
    | cons v rest ih =>
      obtain ⟨hv, hrest⟩ := List.forall_mem_cons.1 hvalues
      simp [readSharedEnumsFrom, hv, ih hrest]
  exact hfrom fun v hv ↦ h v (List.mem_mergeSort.1 hv)

/-- A dictionary with one enumeration alone shares that. -/
theorem readSharedEnums_singleton {members : Entries Json} {values : List EnumValue}
    (hname : name.endsWith "_id" = true)
    (hvalues : readEnum ((members.get? "enum").getD .null) = .ok (some values)) :
    readSharedEnums [(name, .obj members)] =
      .ok (Table.empty.put name ⟨name, captionOf members, values⟩) := by
  rw [readSharedEnums, List.mergeSort_singleton]
  simp only [readSharedEnumsFrom, hname, if_true, ofShape_membersFor, bind, Except.bind, hvalues]
  rfl

/-! ### Catalogs -/

/-- What a catalog was read from: the items of its tree, includes resolved, and the dictionary that
their attributes were read against, with the names of the objects, and with companions if the
profiles and the types call for them. -/
structure ReadFrom (tree : FileTree) (schema : Path) (dict : Dictionary)
    (objects events : List ResolvedItem) (c : Catalog) : Prop where
  names : dict.objects = objects.map (·.name)
  items : ∃ profiles eventItems objectItems j, readItems tree schema "profiles" = .ok profiles ∧
    readItems tree schema "events" = .ok eventItems ∧
    readItems tree schema "objects" = .ok objectItems ∧
    (execute (resolveIncludes tree schema profiles eventItems objectItems) j).1 =
      .ok (events, objects) ∧
    readDatetime profiles dict.types = .ok dict.hasDatetime
  dictionary :
    ∃ dictionary parts, readObject tree (schema.child "dictionary.json") = .ok dictionary ∧
    partOf dictionary "attributes" "dictionary attributes" = .ok dict.attributes ∧
    partOf dictionary "types" "dictionary types" = .ok parts ∧
    partOf parts "attributes" "dictionary types attributes" = .ok dict.types
  objects : readDefinitions dict .object .empty objects = .ok c.objects
  events : readDefinitions dict .event .empty events = .ok c.events

/-- The items that a catalog was read from are those of its tree. -/
theorem ReadFrom.items_eq {tree : FileTree} {schema : Path} {dict : Dictionary}
    {objects events objects' events' : List ResolvedItem} {c : Catalog}
    {profiles eventItems objectItems : List Item} (h : ReadFrom tree schema dict objects events c)
    (hprofiles : readItems tree schema "profiles" = .ok profiles)
    (hevents : readItems tree schema "events" = .ok eventItems)
    (hobjects : readItems tree schema "objects" = .ok objectItems)
    (hincludes : ∀ j, (execute (resolveIncludes tree schema profiles eventItems objectItems) j).1 =
      .ok (events', objects')) :
    objects = objects' ∧ events = events' := by
  obtain ⟨profiles', eventItems', objectItems', j, hprofiles', hevents', hobjects', hincludes',
    -⟩ := h.items
  obtain rfl := Except.ok.inj (hprofiles.symm.trans hprofiles')
  obtain rfl := Except.ok.inj (hevents.symm.trans hevents')
  obtain rfl := Except.ok.inj (hobjects.symm.trans hobjects')
  obtain ⟨rfl, rfl⟩ := Prod.mk.inj (Except.ok.inj ((hincludes j).symm.trans hincludes'))
  exact ⟨rfl, rfl⟩

/-- A catalog that was read comes from the items and the dictionary of its tree, and its shared
enumerations are those of the dictionary. -/
theorem parts_of_read {tree : FileTree} {schema : Path} {j : Journal} {c : Catalog}
    (h : (execute (read tree schema) j).1 = .ok c) :
    ∃ dict objects events, ReadFrom tree schema dict objects events c ∧
      readSharedEnums dict.attributes = .ok c.enums := by
  unfold read at h
  obtain ⟨present, _, -, h⟩ := execute_bind_eq_ok h
  cases present with
  | false => cases h
  | true =>
    obtain ⟨⟨⟩, _, -, h⟩ := execute_bind_eq_ok h
    obtain ⟨version, _, -, h⟩ := execute_bind_eq_ok h
    obtain ⟨categories, _, -, h⟩ := execute_bind_eq_ok h
    obtain ⟨dictionary, _, hdictionary, h⟩ := execute_bind_eq_ok h
    obtain ⟨attributes, _, hattributes, h⟩ := execute_bind_eq_ok h
    obtain ⟨parts, _, hparts, h⟩ := execute_bind_eq_ok h
    obtain ⟨types, _, htypes, h⟩ := execute_bind_eq_ok h
    obtain ⟨eventItems, _, hevents, h⟩ := execute_bind_eq_ok h
    obtain ⟨objectItems, _, hobjects, h⟩ := execute_bind_eq_ok h
    obtain ⟨profiles, j', hprofiles, h⟩ := execute_bind_eq_ok h
    obtain ⟨⟨events, objects⟩, _, hincludes, h⟩ := execute_bind_eq_ok h
    obtain ⟨hasDatetime, _, hdatetime, h⟩ := execute_bind_eq_ok h
    refine ⟨⟨attributes, types, objects.map (·.name), hasDatetime⟩, objects, events, ?_⟩
    -- with companions one more line is reported
    cases hasDatetime
    rotate_left
    obtain ⟨⟨⟩, _, -, h⟩ := execute_bind_eq_ok h
    all_goals
      obtain ⟨objectTable, _, hobjectTable, h⟩ := execute_bind_eq_ok h
      obtain ⟨eventTable, _, heventTable, h⟩ := execute_bind_eq_ok h
      obtain ⟨⟨⟩, _, -, h⟩ := execute_bind_eq_ok h
      obtain ⟨uids, _, -, h⟩ := execute_bind_eq_ok h
      obtain ⟨enums, _, henums, h⟩ := execute_bind_eq_ok h
      cases h
      refine ⟨⟨rfl, ⟨profiles, eventItems, objectItems, j', ?_⟩, ⟨dictionary, parts, ?_⟩, ?_, ?_⟩,
        ?_⟩
      · exact ⟨(Prod.mk.inj hprofiles).1, (Prod.mk.inj hevents).1, (Prod.mk.inj hobjects).1,
          congrArg Prod.fst hincludes, (Prod.mk.inj hdatetime).1⟩
      · exact ⟨(Prod.mk.inj hdictionary).1, (Prod.mk.inj hattributes).1, (Prod.mk.inj hparts).1,
          (Prod.mk.inj htypes).1⟩
      · exact (Prod.mk.inj hobjectTable).1
      · exact (Prod.mk.inj heventTable).1
      · exact (Prod.mk.inj henums).1

theorem readFrom_of_read {tree : FileTree} {schema : Path} {j : Journal} {c : Catalog}
    (h : (execute (read tree schema) j).1 = .ok c) :
    ∃ dict objects events, ReadFrom tree schema dict objects events c := by
  obtain ⟨dict, objects, events, hfrom, -⟩ := parts_of_read h
  exact ⟨dict, objects, events, hfrom⟩

/-- A catalog that was read holds the definitions of its items, includes resolved, and they were
read against the names of the objects. -/
theorem definitions_of_read {tree : FileTree} {schema : Path} {j : Journal} {c : Catalog}
    (h : (execute (read tree schema) j).1 = .ok c) :
    ∃ (dict : Dictionary) (objects events : List ResolvedItem),
      dict.objects = objects.map (·.name) ∧
      (∃ profiles eventItems objectItems j', readItems tree schema "events" = .ok eventItems ∧
        readItems tree schema "objects" = .ok objectItems ∧
        (execute (resolveIncludes tree schema profiles eventItems objectItems) j').1 =
          .ok (events, objects)) ∧
      readDefinitions dict .object .empty objects = .ok c.objects ∧
      readDefinitions dict .event .empty events = .ok c.events := by
  obtain ⟨dict, objects, events, hfrom⟩ := readFrom_of_read h
  obtain ⟨profiles, eventItems, objectItems, j', -, hevents, hobjects, hincludes, -⟩ := hfrom.items
  exact ⟨dict, objects, events, hfrom.names,
    ⟨profiles, eventItems, objectItems, j', hevents, hobjects, hincludes⟩,
    hfrom.objects, hfrom.events⟩

/-- Once the parts of a tree are known, what comes of reading it is settled by its
definitions, categories and enumerations. -/
theorem outcome_read {tree : FileTree} {schema : Path} {version : Json}
    {categories dictionary attributes parts types : Entries Json}
    {eventItems objectItems profiles : List Item} {events objects : List ResolvedItem}
    {hasDatetime : Bool} (hpresent : tree.isDirectory schema = .ok true)
    (hversion : readVersion tree schema = .ok version)
    (hcategories : readObject tree (schema.child "categories.json") = .ok categories)
    (hdictionary : readObject tree (schema.child "dictionary.json") = .ok dictionary)
    (hattributes : partOf dictionary "attributes" "dictionary attributes" = .ok attributes)
    (hparts : partOf dictionary "types" "dictionary types" = .ok parts)
    (htypes : partOf parts "attributes" "dictionary types attributes" = .ok types)
    (hevents : readItems tree schema "events" = .ok eventItems)
    (hobjects : readItems tree schema "objects" = .ok objectItems)
    (hprofiles : readItems tree schema "profiles" = .ok profiles)
    (hincludes : ∀ j, execute (resolveIncludes tree schema profiles eventItems objectItems) j =
      (.ok (events, objects), j))
    (hdatetime : readDatetime profiles types = .ok hasDatetime) :
    (read tree schema).outcome.1 = (do
      let objectTable ← readDefinitions ⟨attributes, types, objects.map (·.name),
        hasDatetime⟩ .object .empty objects
      let eventTable ← readDefinitions ⟨attributes, types, objects.map (·.name),
        hasDatetime⟩ .event .empty events
      let uids ← readCategories categories
      let enums ← readSharedEnums attributes
      .ok ⟨version, uids, objectTable, eventTable, enums⟩) := by
  rw [Reporting.outcome_eq]
  unfold read
  simp only [execute_bind, Reporting.execute_ofExcept, hpresent, hversion, hcategories, hdictionary,
    hattributes, hparts, htypes, hevents, hobjects, hprofiles, mapError_ok, hincludes, hdatetime,
    if_true, Reporting.execute_report]
  generalize (⟨attributes, types, objects.map (·.name), hasDatetime⟩ : Dictionary) = dict
  cases hasDatetime
  all_goals
    rcases readDefinitions dict .object .empty objects with e | objectTable
    · rfl
    rcases readDefinitions dict .event .empty events with e | eventTable
    · rfl
    rcases readCategories categories with e | uids
    · rfl
    rcases readSharedEnums attributes with e | enums <;> rfl

/-- Whatever a catalog that was read refers to is one of its objects. -/
theorem read_targetsDefined {tree : FileTree} {schema : Path} {j : Journal} {c : Catalog}
    (h : (execute (read tree schema) j).1 = .ok c) : c.TargetsDefined := by
  obtain ⟨dict, objects, events, hdict, -, hobjects, hevents⟩ := definitions_of_read h
  have hnames : ∀ n, n ∈ dict.objects ↔ n ∈ c.objects.names := fun n ↦ by
    rw [mem_names_readDefinitions hobjects, hdict]
    exact (or_iff_right List.not_mem_nil).symm
  have hinto : ∀ d : Definition, d.RefersInto dict.objects → d.RefersInto c.objects.names :=
    fun d hd ↦ hd.mono fun a ha object htarget ↦ (hnames object).1 (ha object htarget)
  exact ⟨readDefinitions_all
    (fun _ _ d hd ↦ hinto d (readDefinition_refersInto hd)) Table.all_empty hobjects,
    readDefinitions_all
      (fun _ _ d hd ↦ hinto d (readDefinition_refersInto hd)) Table.all_empty hevents⟩

end Catalog

end EventSchema
