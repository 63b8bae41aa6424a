import EventSchema.Proofs.Package.LinkClosure
import EventSchema.Proofs.Payload.Preparing

/-!
# Names inside the module of an entity

The class of an entity has a field for each attribute, and the module of an event class a table of
captions for each attribute with labels. Planning compares the names of modules and classes alone,
so two attributes may come to one field, and two tables of captions to one name; in both cases the
last one counts. Fields are told apart exactly if no two attributes have the same field
(`Identifier.SameField`), tables of captions exactly if no two of their attributes agree in upper
case (`named_of_module`).
-/

namespace EventSchema

/-- The names of the attributes of an entity, in order. -/
def Entity.attributeNames (e : Entity) : List String := e.attributes.values.map Attribute.name

/-- Attributes that stand under their own names have different names. -/
theorem KeyedAttributes.nodup_attributeNames {e : Entity} (h : KeyedAttributes e.attributes) :
    e.attributeNames.Nodup := by
  have hnames : e.attributeNames = e.attributes.names := by
    rw [Entity.attributeNames, Table.values, Entries.values, List.map_map]
    exact List.map_congr_left fun entry hentry ↦ h entry.1 entry.2 (Table.get?_eq_some_iff.2 hentry)
  exact hnames ▸ e.attributes.nodup

namespace Package

open Identifier

variable {p : Plan} {e : Entity} {m : EntityModule} {a : Attribute}

/-! ### Fields -/

/-- The name of the attribute of a field. -/
def Field.attribute (f : Field) : String := f.alternative.getD f.name

theorem names_of_fieldOf {planned : Table Entity} {d : Deferral} {f : Field × Entry}
    (h : fieldOf planned d e a = .ok f) :
    f.1.name = fieldName a.name ∧ f.1.attribute = a.name ∧ f.2.name = a.name := by
  obtain ⟨⟨model, entry⟩, -, h⟩ := bind_eq_ok h
  cases h
  refine ⟨rfl, ?_, rfl⟩
  dsimp only [Field.attribute]
  split
  · next hname => exact hname
  · rfl

/-- The fields of a module have the field names of the attributes, and the entries the attributes'
own. -/
theorem names_of_module (h : EntityModule.of p e = .ok m) :
    m.fields.map Field.name = e.attributeNames.map fieldName ∧
      m.fields.map Field.attribute = e.attributeNames ∧
      m.entries.map Entry.name = e.attributeNames := by
  obtain ⟨fields, hfields, hmodel, hentries⟩ := (EntityModule.madeOf h).fields
  rw [hmodel, hentries, Entity.attributeNames]
  simp only [List.map_map]
  exact ⟨map_eq_of_mapM_ok hfields fun _ _ hf ↦ (names_of_fieldOf hf).1,
    map_eq_of_mapM_ok hfields fun _ _ hf ↦ (names_of_fieldOf hf).2.1,
    map_eq_of_mapM_ok hfields fun _ _ hf ↦ (names_of_fieldOf hf).2.2⟩

/-- Of fields with one name the last one counts. -/
theorem mem_fieldTable {f : Field} : f ∈ m.fieldTable.values ↔
    ∃ before after, m.fields = before ++ f :: after ∧ ∀ g ∈ after, g.name ≠ f.name := by
  rw [Table.mem_values_iff]
  constructor
  · rintro ⟨n, hget⟩
    obtain ⟨before, g, after, hsplit, rfl, rfl, hlast⟩ := Table.get?_ofList_map.1 hget
    exact ⟨before, after, hsplit, hlast⟩
  · rintro ⟨before, after, hsplit, hlast⟩
    exact ⟨f.name, Table.get?_ofList_map.2 ⟨before, f, after, hsplit, rfl, rfl, hlast⟩⟩

/-- The class keeps the field of an attribute exactly if no later attribute has the same field. -/
theorem mem_attributes_fieldTable {before after : List String} {name : String}
    (hfields : ∀ f ∈ m.fields, f.name = fieldName f.attribute)
    (hnodup : (m.fields.map Field.attribute).Nodup)
    (hsplit : m.fields.map Field.attribute = before ++ name :: after) :
    name ∈ m.fieldTable.values.map Field.attribute ↔ ∀ other ∈ after, ¬SameField name other := by
  constructor
  · intro hmem
    obtain ⟨f, hf, rfl⟩ := List.mem_map.1 hmem
    obtain ⟨fs, gs, hfs, hlast⟩ := mem_fieldTable.1 hf
    rw [hfs, List.map_append, List.map_cons] at hsplit hnodup
    have hdisjoint := List.nodup_append.1 hnodup
    -- the attribute occurs once, so what follows it is what follows its field
    obtain ⟨-, -, rfl⟩ := (List.append_cons_inj_of_notMem
      (fun h ↦ hdisjoint.2.2 _ h _ List.mem_cons_self rfl)
      (List.nodup_cons.1 hdisjoint.2.1).1).1 hsplit
    intro other hother hsame
    obtain ⟨g, hg, rfl⟩ := List.mem_map.1 hother
    refine hlast g hg ?_
    have hsub : ∀ k ∈ f :: gs, k ∈ m.fields := fun k hk ↦ hfs ▸ List.mem_append_right _ hk
    rw [hfields g (hsub g (List.mem_cons_of_mem _ hg)), hfields f (hsub f List.mem_cons_self),
      fieldName_eq_iff.2 hsame]
  · intro hall
    obtain ⟨fs, rest, hfs, rfl, hrest⟩ := List.map_eq_append_iff.1 hsplit
    obtain ⟨f, gs, rfl, rfl, rfl⟩ := List.map_eq_cons_iff.1 hrest
    have hsub : ∀ k ∈ f :: gs, k ∈ m.fields := fun k hk ↦ hfs ▸ List.mem_append_right _ hk
    refine List.mem_map_of_mem (mem_fieldTable.2 ⟨fs, gs, hfs, fun g hg hname ↦ ?_⟩)
    rw [hfields g (hsub g (List.mem_cons_of_mem _ hg)),
      hfields f (hsub f List.mem_cons_self)] at hname
    exact hall g.attribute (List.mem_map_of_mem hg) (fieldName_eq_iff.1 hname.symm)

/-! ### Tables of captions -/

/-- The module of an event class has the labelled attributes of the class, that of an object has
none. -/
theorem labelled_of_module (h : EntityModule.of p e = .ok m) :
    e.kind = .event ∧ labelledAttributes e = .ok m.labelled ∨
    e.kind = .object ∧ m.labelled = [] := by
  obtain ⟨fields, hfields, h⟩ := bind_eq_ok h
  cases hkind : e.kind <;> rw [hkind] at h
  all_goals
    obtain ⟨labelled, hlabelled, h⟩ := bind_eq_ok h
    obtain ⟨summary, -, h⟩ := bind_eq_ok h
    cases h
  · exact .inr ⟨rfl, (Except.ok.inj hlabelled).symm⟩
  · exact .inl ⟨rfl, mapError_eq_ok hlabelled⟩

/-- Labelled attributes are attributes, in the same order. -/
theorem labelled_sublist {labelled : List LabelledAttribute}
    (h : labelledAttributes e = .ok labelled) :
    (labelled.map LabelledAttribute.name).Sublist e.attributeNames := by
  obtain ⟨found, hfound, rfl⟩ := exists_of_labelledAttributes h
  have hall := forall₂_of_mapM_ok hfound
  clear h hfound
  rw [Entity.attributeNames]
  generalize e.attributes.values = attributes at hall ⊢
  induction hall with
  | nil => exact .slnil
  | @cons a l _ _ hl _ ih =>
    cases l with
    | none => exact ih.cons a.name
    | some l =>
      rw [List.filterMap_cons_some (f := id) rfl, List.map_cons, List.map_cons,
        (exists_of_labelled? hl).1]
      exact ih.cons_cons a.name

/-- Tables of captions have one name if their attributes agree in upper case. -/
theorem labelsName_eq_iff {a b : LabelledAttribute} :
    a.labelsName = b.labelsName ↔ Text.upper a.name = Text.upper b.name :=
  String.append_left_inj "_LABELS"

variable {labelled : List LabelledAttribute} {l : LabelledAttribute}

theorem nodup_labelsNames : (labelled.map LabelledAttribute.labelsName).Nodup ↔
    labelled.Pairwise fun a b ↦ Text.upper a.name ≠ Text.upper b.name := by
  rw [List.Nodup, List.pairwise_map]
  exact List.Pairwise.iff fun a b ↦ not_congr labelsName_eq_iff

theorem nodup_labelsNames_of_isAscii (h : ∀ l ∈ labelled, Text.IsAscii l.name.toList) :
    (labelled.map LabelledAttribute.labelsName).Nodup ↔
    (labelled.map fun l ↦ Text.lower l.name).Nodup := by
  rw [nodup_labelsNames, List.Nodup, List.pairwise_map]
  exact List.Pairwise.iff_of_mem fun ha hb ↦ not_congr (Text.upper_eq_iff (h _ ha) (h _ hb))

/-- The captions that are found by the name of a table are those of the last attribute with this
name. -/
theorem exists_get?_captionTables (hl : l ∈ labelled) : ∃ before last after,
    labelled = before ++ last :: after ∧ last.labelsName = l.labelsName ∧
      (∀ other ∈ after, other.labelsName ≠ l.labelsName) ∧
      (captionTables labelled).get? l.labelsName = some last.values := by
  obtain ⟨values, hvalues⟩ : ∃ values, (captionTables labelled).get? l.labelsName = some values :=
    Table.exists_get?_ofList_map hl
  obtain ⟨before, last, after, hsplit, hname, rfl, hlast⟩ := Table.get?_ofList_map.1 hvalues
  exact ⟨before, last, after, hsplit, hname, hlast, hvalues⟩

theorem get?_captionTables (hnodup : (labelled.map LabelledAttribute.labelsName).Nodup)
    (hl : l ∈ labelled) :
    (captionTables labelled).get? l.labelsName = some l.values :=
  Table.get?_ofList_map_of_mem hl fun _ hother hname ↦
    congrArg LabelledAttribute.values (List.inj_on_of_nodup_map hnodup hother hl hname)

/-! ### The names of a module -/

/-- The fields and tables of captions in the module of an entity, and which of them are told
apart. -/
structure EntityModule.Named (m : EntityModule) (e : Entity) : Prop where
  /-- Every attribute has a field, which has its field name. -/
  fields : m.fields.map Field.name = e.attributeNames.map fieldName
  /-- A field goes by the name of its attribute. -/
  attributes : m.fields.map Field.attribute = e.attributeNames
  /-- Every attribute has an entry of its own name. -/
  entries : m.entries.map Entry.name = e.attributeNames
  /-- Of a schema that was read all attributes have different names. -/
  nodup_names : KeyedAttributes e.attributes → e.attributeNames.Nodup
  /-- Fields are told apart exactly if no two attributes have the same one. -/
  nodup_fields : (m.fields.map Field.name).Nodup ↔
    e.attributeNames.Pairwise fun a b ↦ ¬SameField a b
  /-- They are told apart where no attribute begins or ends in an underscore. -/
  nodup_plain : e.attributeNames.Nodup → (∀ name ∈ e.attributeNames, ¬HasOuterUnderscore name) →
    (m.fields.map Field.name).Nodup
  /-- The class keeps an attribute exactly if no later attribute has the same field. -/
  kept : e.attributeNames.Nodup → ∀ before name after, e.attributeNames = before ++ name :: after →
    (name ∈ m.fieldTable.values.map Field.attribute ↔ ∀ other ∈ after, ¬SameField name other)
  /-- Labelled attributes are attributes, in the same order. -/
  labelled : (m.labelled.map LabelledAttribute.name).Sublist e.attributeNames
  /-- Tables of captions are told apart exactly if no two of their attributes agree in upper
  case. -/
  nodup_labels : (m.labelled.map LabelledAttribute.labelsName).Nodup ↔
    m.labelled.Pairwise fun a b ↦ Text.upper a.name ≠ Text.upper b.name
  /-- Where the names are of ASCII, exactly if no two agree in lower case. -/
  nodup_ascii : (∀ l ∈ m.labelled, Text.IsAscii l.name.toList) →
    ((m.labelled.map LabelledAttribute.labelsName).Nodup ↔
      (m.labelled.map fun l ↦ Text.lower l.name).Nodup)
  /-- A pair refers to the captions of the last attribute whose table has the same name. -/
  captions : ∀ l ∈ m.labelled, ∃ before last after, m.labelled = before ++ last :: after ∧
    last.labelsName = l.labelsName ∧ (∀ other ∈ after, other.labelsName ≠ l.labelsName) ∧
    SiblingPair.ofLabelled (captionTables m.labelled) l = ⟨l.name, l.sibling, .ofValues last.values⟩
  /-- So where the tables are told apart it refers to those of its own attribute. -/
  own : (m.labelled.map LabelledAttribute.labelsName).Nodup → ∀ l ∈ m.labelled,
    SiblingPair.ofLabelled (captionTables m.labelled) l = ⟨l.name, l.sibling, .ofValues l.values⟩
  /-- These are the pairs by which events of the class are checked. -/
  pairs : e.kind = .event → ∀ checked, EventModel.ofEntity e = .ok checked →
    checked.pairs = m.labelled.map (SiblingPair.ofLabelled (captionTables m.labelled))

/-- **Names inside a module.** Whatever was planned, the class of an entity has one field for each
attribute, and it keeps the last one of those with the same name; the pairs of an event class find
the captions of the last attribute with the same name in upper case. Nothing is lost exactly if no
two attributes have the same field, and no two labelled ones the same name in upper case. -/
theorem named_of_module (h : EntityModule.of p e = .ok m) : m.Named e := by
  obtain ⟨hfields, hattributes, hentries⟩ := names_of_module h
  have hfield : ∀ f ∈ m.fields, f.name = fieldName f.attribute := by
    rw [← hattributes, List.map_map] at hfields
    exact List.map_inj_left.1 hfields
  have hnodup : (m.fields.map Field.name).Nodup ↔
      e.attributeNames.Pairwise fun a b ↦ ¬SameField a b := by
    rw [hfields, nodup_map_fieldName_iff]
  constructor
  case fields => exact hfields
  case attributes => exact hattributes
  case entries => exact hentries
  case nodup_names => exact KeyedAttributes.nodup_attributeNames
  case nodup_fields => exact hnodup
  case nodup_plain => exact fun hnames hplain ↦ hnodup.2 (pairwise_not_sameField hnames hplain)
  case kept =>
    intro hnames before name after hsplit
    rw [← hattributes] at hnames hsplit
    exact mem_attributes_fieldTable hfield hnames hsplit
  case labelled =>
    rcases labelled_of_module h with ⟨-, hlabelled⟩ | ⟨-, hnone⟩
    · exact labelled_sublist hlabelled
    · rw [hnone]
      exact List.nil_sublist _
  case nodup_labels => exact nodup_labelsNames
  case nodup_ascii => exact nodup_labelsNames_of_isAscii
  case captions =>
    intro l hl
    obtain ⟨before, last, after, hsplit, hname, hlast, hget⟩ := exists_get?_captionTables hl
    exact ⟨before, last, after, hsplit, hname,
      hlast, by rw [SiblingPair.ofLabelled, hget, Option.getD_some]⟩
  case own =>
    intro hlabels l hl
    rw [SiblingPair.ofLabelled, get?_captionTables hlabels hl, Option.getD_some]
  case pairs =>
    intro hkind checked hchecked
    obtain ⟨labelled, hlabelled, hchecked⟩ := bind_eq_ok hchecked
    cases hchecked
    rcases labelled_of_module h with ⟨-, hmodule⟩ | ⟨hobject, -⟩
    · cases hlabelled.symm.trans hmodule
      rfl
    · cases hkind.symm.trans hobject

/-! ### An event class with two classes and two levels -/

/-- An attribute that holds a text. -/
def textOf (name : String) : Attribute :=
  { (default : Attribute) with name := name, scalarType := "string_t" }

/-- An attribute with one number, whose label another attribute carries. -/
def levelOf (name sibling label : String) : Attribute :=
  { (default : Attribute) with
    name := name, scalarType := "integer_t", sibling := .str sibling, enumValues :=
    some [⟨1, .str label, ""⟩] }

/-- Two attributes of one field, and two whose tables of captions have one name. -/
def levelEvent : Entity :=
  { (default : Entity) with
    kind := .event, name := "ping", caption := .str "Ping", category :=
    some "system", categoryUid := .number 1, classUid := 1001
    attributes := .ofList [
      ("_class", textOf "_class"), ("class", textOf "class"),
      ("Level_id", levelOf "Level_id" "level" "Low"),
      ("level_id", levelOf "level_id" "level_name" "Minor"), ("level", textOf "level"),
      ("level_name", textOf "level_name")] }

/-- The event class alone. -/
def levelSchema : Schema := ⟨.str "1.0.0", .empty, .ofList [("ping", levelEvent)], .empty⟩

/-- The labelled attribute of a level. -/
def labelledLevel (name sibling label : String) : LabelledAttribute :=
  ⟨name, sibling, [⟨1, .str label, ""⟩]⟩

theorem labelledAttributes_levelEvent : labelledAttributes levelEvent =
    .ok [labelledLevel "Level_id" "level" "Low",
      labelledLevel "level_id" "level_name" "Minor"] := by
  have hvalues : levelEvent.attributes.values =
      [textOf "_class", textOf "class", levelOf "Level_id" "level" "Low",
    levelOf "level_id" "level_name" "Minor", textOf "level", textOf "level_name"] := rfl
  have hcapital : (levelOf "Level_id" "level" "Low").isEnum = true := by decide +kernel
  have hsmall : (levelOf "level_id" "level_name" "Minor").isEnum = true := by decide +kernel
  have htext (name : String) : (textOf name).isEnum = false := rfl
  simp only [labelledAttributes, hvalues, List.mapM_cons, List.mapM_nil, labelled?, hcapital,
    hsmall, htext]
  rfl

theorem exists_module_levelEvent : ∃ p m, plan levelSchema nothingLate = .ok p ∧
    p.events.get? "ping" = some levelEvent ∧ EntityModule.of p levelEvent = .ok m := by
  have hevents : plannedEvents levelSchema = levelSchema.events := by
    rw [plannedEvents, Table.sorted_eq_self (by decide)]
    rfl
  have hobjects : plannedObjects levelSchema levelSchema.events = .ok .empty :=
    plannedObjects_of_empty rfl rfl
  have hok : (plan levelSchema nothingLate).isOk = true := by
    rw [plan, hevents, hobjects]
    dsimp only [bind, Except.bind]
    rw [objectOrder_empty]
    decide +kernel
  obtain ⟨p, hplan⟩ := exists_of_isOk hok
  have hp := plan_eq_ok_iff.1 hplan
  have hnone : p.objects = .empty := by
    have hplanned := hp.objects
    rw [hevents, hobjects] at hplanned
    exact (Except.ok.inj hplanned).symm
  have hmodule : (EntityModule.of p levelEvent).isOk = true := by
    rw [EntityModule.of, hnone, hp.schema, hp.deferral]
    decide +kernel
  obtain ⟨m, hm⟩ := exists_of_isOk hmodule
  refine ⟨p, m, hplan, ?_, hm⟩
  rw [hp.events, hevents]
  rfl

/-- The class keeps one of the attributes with the field `class_`. -/
theorem named_of_levelEvent : ∃ p m, plan levelSchema nothingLate = .ok p ∧
    p.events.get? "ping" = some levelEvent ∧ EntityModule.of p levelEvent = .ok m ∧
    m.Named levelEvent ∧
    "_class" ∉ m.fieldTable.values.map Field.attribute ∧
    "class" ∈ m.fieldTable.values.map Field.attribute := by
  obtain ⟨p, m, hplan, hping, hm⟩ := exists_module_levelEvent
  have hnamed := named_of_module hm
  have hnames : levelEvent.attributeNames =
    ["_class", "class", "Level_id", "level_id", "level", "level_name"] := rfl
  have hkept := hnamed.kept (by rw [hnames]; decide)
  have hsame : SameField "_class" "class" := fieldName_eq_iff.1 (by decide +kernel)
  have hother : ∀ other ∈ ["Level_id", "level_id", "level", "level_name"],
    fieldName "class" ≠ fieldName other := by decide +kernel
  refine ⟨p, m, hplan, hping, hm, hnamed, fun hmem ↦ ?_, ?_⟩
  · exact (hkept [] "_class" _ hnames).1 hmem "class" List.mem_cons_self hsame
  · exact (hkept ["_class"] "class" _ hnames).2 fun other hmem ↦
      mt fieldName_eq_iff.2 (hother other hmem)

/-- Attributes with different names have one field, and a pair refers to the captions of another
attribute. -/
theorem shared_of_levelSchema : ∃ p m, plan levelSchema nothingLate = .ok p ∧
    p.events.get? "ping" = some levelEvent ∧ EntityModule.of p levelEvent = .ok m ∧
    levelEvent.attributeNames.Nodup ∧ ¬(m.fields.map Field.name).Nodup ∧
    ¬(m.labelled.map LabelledAttribute.labelsName).Nodup ∧ ∃ l ∈ m.labelled,
      SiblingPair.ofLabelled (captionTables m.labelled) l ≠ ⟨l.name, l.sibling,
        .ofValues l.values⟩ := by
  obtain ⟨p, m, hplan, hping, hm⟩ := exists_module_levelEvent
  have hlabelled : m.labelled =
      [labelledLevel "Level_id" "level" "Low", labelledLevel "level_id" "level_name" "Minor"] := by
    rcases labelled_of_module hm with ⟨-, hlabelled⟩ | ⟨hkind, -⟩
    · exact Except.ok.inj (hlabelled.symm.trans labelledAttributes_levelEvent)
    · cases hkind
  refine ⟨p, m, hplan, hping, hm, by decide, ?_, ?_, labelledLevel "Level_id" "level" "Low", ?_, ?_⟩
  · rw [(names_of_module hm).1]
    decide +kernel
  · rw [hlabelled]
    decide +kernel
  · rw [hlabelled]
    exact List.mem_cons_self
  · have hget :
        (captionTables m.labelled).get? (labelledLevel "Level_id" "level" "Low").labelsName =
        some [⟨1, .str "Minor", ""⟩] := by
      rw [hlabelled]
      exact Table.get?_ofList_map.2 ⟨[_], _, [], rfl, by decide +kernel, rfl,
        fun _ h ↦ absurd h List.not_mem_nil⟩
    rw [SiblingPair.ofLabelled, hget]
    exact fun heq ↦
      absurd (congrArg (fun pair : SiblingPair ↦ pair.labels.entries) heq) (by decide +kernel)

end Package

end EventSchema
