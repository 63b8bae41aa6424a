import EventSchema.Package.EnumModel
import EventSchema.Proofs.Catalog.Documents
import EventSchema.Proofs.Catalog.Enumerations
import EventSchema.Proofs.Payload.Preparing

/-!
# Where the numbers of a package come from

The numbers that a package shows stand in lists of values: of parsed and of inherited attributes, of
the enumerations of the dictionary, and of the activities of event classes. None of these lists is
empty, and each is in order. It ascends, with no number twice, exactly under a condition that can be
read off the schema tree (`Catalog.enumerated_of_read`): the lists of activities always, since they
are unions, inherited lists if they are unions of several, and lists that are taken over as they
were read if no two keys spell one number.
-/

namespace EventSchema

open EnumValue

namespace Package

/-! ### What is written from a list of values -/

theorem enumValues_of_isEnum {a : Attribute} (h : a.isEnum = true) :
    a.enumValues = some a.values := by
  unfold Attribute.isEnum Attribute.values at h
  unfold Attribute.values
  cases hvalues : a.enumValues with
  | none =>
    rw [hvalues] at h
    cases h
  | some values => rfl

/-- A field is limited to the numbers of its list. -/
theorem exists_values_of_contentOf {a : Attribute} {numbers : List Int}
    (h : contentOf a = .numbers numbers) :
    a.target = none ∧ a.enumValues = some a.values ∧ numbers = a.values.map EnumValue.value := by
  unfold contentOf at h
  split at h
  · cases h
  · next htarget =>
    split at h
    · next henum =>
      cases h
      exact ⟨htarget, enumValues_of_isEnum henum, rfl⟩
    · cases h

/-- The captions of a labelled attribute are those of its list. -/
theorem exists_values_of_labelledAttributes {e : Entity} {labelled : List LabelledAttribute}
    {l : LabelledAttribute} (h : labelledAttributes e = .ok labelled) (hl : l ∈ labelled) :
    ∃ key a, e.attributes.get? key = some a ∧ a.enumValues = some l.values := by
  obtain ⟨a, ha, hlabel⟩ := exists_of_mem_labelledAttributes h hl
  obtain ⟨key, hkey⟩ := Table.mem_values_iff.1 ha
  obtain ⟨-, hvalues, henum, -⟩ := exists_of_labelled? hlabel
  exact ⟨key, a, hkey, hvalues ▸ enumValues_of_isEnum henum⟩

/-- The members of an enumeration are for the values of its list, in their order. -/
theorem EnumModel.values_of_memberNames {taken : List String} {values : List EnumValue}
    {members : List (String × EnumValue)} (h : EnumModel.memberNames taken values = .ok members) :
    members.map Prod.snd = values := by
  induction values generalizing taken members with
  | nil =>
    cases h
    rfl
  | cons v vs ih =>
    unfold memberNames at h
    split at h
    · obtain ⟨rest, hrest, h⟩ := bind_eq_ok h
      cases h
      rw [List.map_cons, ih hrest]
    · cases h

/-- The values of activities ascend, whatever the class says of them. -/
theorem EnumModel.ascending_activities {event : Entity} {m : EnumModel}
    (h : EnumModel.activities? event = some m) :
    Ascending m.values ∧ m.values ≠ [] := by
  unfold activities? at h
  split at h
  · cases h
  · split at h
    · obtain rfl := Option.some.inj h
      exact ⟨ascending_byNumber _, byNumber_ne_nil (List.cons_ne_nil _ _)⟩
    · cases h

end Package

namespace Catalog

variable {dict : Dictionary} {kind : EntityKind} {items : List ResolvedItem}
  {definitions : Table Definition} {categories : Table Uid} {entities : Table Entity}

/-! ### Every list of a schema -/

/-- The lists of values of definitions and of the entities they are worked out to. That of a
definition ascends exactly if the dictionary and the item together spell no number twice, that of an
entity exactly if it is not taken over from one definition alone whose list does not ascend. -/
structure Enumerates (dict : Dictionary) (items : List ResolvedItem)
    (definitions : Table Definition) (entities : Table Entity) : Prop where
  parsed : ∀ n d key a vs, definitions.get? n = some d → d.attributes.get? key = some a →
    a.enumValues = some vs →
    ∃ item ∈ items, item.name = n ∧ ∃ standing value, dict.attributes.get? key = some standing ∧
      (key, value) ∈ item.attributes ∧
      Numbered vs (spelledNumbers (enumOf (standing.merge value))).Nodup
  inherited : ∀ n e key a vs, entities.get? n = some e → e.attributes.get? key = some a →
    a.enumValues = some vs →
    ∃ chain, lineage definitions n = .ok chain ∧
      Numbered vs (∀ us, (definers chain key).filterMap (·.enumValues) = [us] → Ascending us)

theorem enumerates_of_read (hread : readDefinitions dict kind .empty items = .ok definitions)
    (hentities : HoldsEntities definitions categories definitions.names entities) :
    Enumerates dict items definitions entities := by
  have hparsed (n : String) (d : Definition) (key : String) (a : Attribute) (vs : List EnumValue)
      (hd : definitions.get? n = some d) (ha : d.attributes.get? key = some a)
      (hvs : a.enumValues = some vs) : ∃ item ∈ items, item.name = n ∧ ∃ standing value,
        dict.attributes.get? key = some standing ∧
        (key, value) ∈ item.attributes ∧
        Numbered vs (spelledNumbers (enumOf (standing.merge value))).Nodup := by
    obtain ⟨item, hitem, hname, hdefinition⟩ :=
      (exists_item_of_readDefinitions hread hd).resolve_left (by simp)
    exact ⟨item, hitem, hname, exists_numbered_of_readDefinition hdefinition ha hvs⟩
  refine ⟨hparsed, fun n e key a vs he ha hvs ↦ ?_⟩
  refine exists_numbered_of_ofName ((hentities.get?_iff n e).1 he).2
    (fun m d b us hd hb hus ↦ ?_) ha hvs
  obtain ⟨-, -, -, standing, value, -, -, hnumbered⟩ := hparsed m d _ b us hd hb hus
  exact ⟨_, hnumbered⟩

/-- The lists of values that a catalog and its schema lead to, and what is written from them: fields
that are limited to numbers, tables of captions and members of enumerations show the numbers of a
list, each as often as it stands there. -/
structure Enumerated (dict : Dictionary) (objects events : List ResolvedItem) (c : Catalog)
    (s : Schema) : Prop where
  objects : Enumerates dict objects c.objects s.objects
  events : Enumerates dict events c.events s.events
  shared : ∀ n e, s.enums.get? n = some e →
    ∃ value, (n, value) ∈ dict.attributes ∧ Numbered e.values (spelledNumbers (enumOf value)).Nodup
  activities : ∀ n e m, s.events.get? n = some e → Package.EnumModel.activities? e = some m →
    Numbered m.values True
  fields : ∀ a numbers, Package.contentOf a = .numbers numbers →
    ∃ vs, a.enumValues = some vs ∧ numbers = vs.map EnumValue.value
  captions : ∀ e labelled l, Package.labelledAttributes e = .ok labelled → l ∈ labelled →
    ∃ key a, e.attributes.get? key = some a ∧ a.enumValues = some l.values
  members : ∀ (m : Package.EnumModel) members, m.members = .ok members →
    members.map Prod.snd = m.values

/-- **Numbers of enumerations.** Every list of values that a schema tree leads to has a value and is
in order. A list that was read ascends, so that no number stands twice, exactly if no two keys spell
one number; an inherited one, if it is not one such list alone; and that of activities always. -/
theorem enumerated_of_read (tree : FileTree) (schema : Path) (c : Catalog) (s : Schema)
    (hread : (read tree schema).outcome.1 = .ok c) (hresolve : c.resolve.outcome.1 = .ok s) :
    ∃ dict objects events, ReadFrom tree schema dict objects events c ∧
    Enumerated dict objects events c s := by
  obtain ⟨dict, objects, events, hfrom, henums⟩ := parts_of_read hread
  obtain ⟨hobjects, hevents⟩ := entities_of_resolve hresolve
  refine ⟨dict, objects, events, hfrom, ?_⟩
  constructor
  case objects => exact enumerates_of_read hfrom.objects hobjects
  case events => exact enumerates_of_read hfrom.events hevents
  case shared =>
    intro n e he
    rw [enums_of_resolve hresolve] at he
    exact exists_numbered_of_readSharedEnums henums he
  case activities =>
    intro n e m _ hm
    obtain ⟨hascending, hne⟩ := Package.EnumModel.ascending_activities hm
    exact hascending.numbered hne trivial
  case fields =>
    intro a numbers hnumbers
    obtain ⟨-, hvalues, hmap⟩ := Package.exists_values_of_contentOf hnumbers
    exact ⟨a.values, hvalues, hmap⟩
  case captions => exact fun e labelled l hlabelled hl ↦
    Package.exists_values_of_labelledAttributes hlabelled hl
  case members => exact fun m members hmembers ↦ Package.EnumModel.values_of_memberNames hmembers

/-! ### Grades with one number -/

/-- The documents of exams, two of whose grades have keys that spell one number. -/
def examDocuments : Documents where
  version := "\x7b\"version\": \"1.0.0\"\x7d"
  categories := "\x7b\x7d"
  dictionary := "\x7b\"attributes\":\x7b\"grade_id\":\x7b\"type\":\"integer_t\"," ++
      "\"enum\":\x7b\"1\":\x7b\x7d,\"01\":\x7b\x7d\x7d\x7d\x7d\x7d"
  objects :=
    [("exam.json", "\x7b\"name\": \"exam\", \"attributes\": \x7b\"grade_id\": \x7b\x7d\x7d\x7d")]

/-- A schema tree of exams. -/
def examTree : FileTree := examDocuments.tree

/-- Its grades. -/
def gradeEnum : Entries Json := [("1", .obj []), ("01", .obj [])]

/-- What its dictionary says of a grade. -/
def gradeDetails : Entries Json := [("type", .str "integer_t"), ("enum", .obj gradeEnum)]

/-- Its exams. -/
def examItem : Item where
  path := ⟨"", ["objects", "exam.json"]⟩
  name := "exam"
  members := [("name", .str "exam"), ("attributes", .obj [("grade_id", .obj [])])]

/-- The values of a grade, whose captions are their numbers. -/
def gradeValues : List EnumValue := [⟨1, .str "1", ""⟩, ⟨1, .str "1", ""⟩]

theorem readEnum_gradeEnum : readEnum (.obj gradeEnum) = .ok (some gradeValues) := by
  have hone : Text.readInteger? "1" = some 1 := by decide +kernel
  have hpadded : Text.readInteger? "01" = some 1 := by decide +kernel
  have hvalues : enumValues gradeEnum = .ok gradeValues := by
    simp only [gradeEnum, enumValues, enumValue?_empty hone, enumValue?_empty hpadded]
    rfl
  have hsorted : gradeValues.mergeSort (fun v w ↦ decide (v.value ≤ w.value)) = gradeValues :=
    List.mergeSort_of_pairwise (by decide)
  rw [readEnum, hvalues]
  dsimp only [bind, Except.bind]
  rw [hsorted]
  rfl

/-- What the documents say. -/
def examContents : Contents :=
  ⟨.str "1.0.0", [], [("grade_id", .obj gradeDetails)], [], [examItem], [], []⟩

theorem says_examDocuments : Says examDocuments examContents where
  version := ⟨_, .of_chars rfl rfl, rfl⟩
  categories := .of_chars rfl rfl
  dictionary := ⟨_, _, .of_chars (append_eq_ofList rfl rfl) rfl, rfl, rfl, rfl⟩
  objects := ⟨by decide +kernel, by decide,
    .cons ⟨rfl, rfl, ⟨.of_chars rfl rfl, rfl, by decide⟩⟩ .nil⟩
  events := .nil _ _
  profiles := .nil _ _
  plain := by decide +kernel

/-- The grade of an exam has one number twice. -/
theorem catalog_examContents : ∃ c s, examContents.catalog = .ok c ∧ c.resolve.outcome.1 = .ok s ∧
    ∃ e a, s.objects.get? "exam" = some e ∧ e.attributes.get? "grade_id" = some a ∧
      a.enumValues = some gradeValues := by
  have hget : Entries.get? [("grade_id", Json.obj gradeDetails)] "grade_id" =
      some (.obj gradeDetails) := rfl
  have htype (dict : Dictionary) (place : String) :
      readType dict place "grade_id" gradeDetails = .ok ("integer_t", .null) :=
    readType_of_scalar rfl (by decide) (by decide +kernel)
  have henum : (Entries.get? gradeDetails "enum").getD .null = .obj gradeEnum := rfl
  obtain ⟨enums, henums⟩ : ∃ enums, readSharedEnums [("grade_id", .obj gradeDetails)] = .ok enums :=
    ⟨_, readSharedEnums_singleton (by decide +kernel) readEnum_gradeEnum⟩
  have hitems : examContents.objects.map Item.plain =
      [⟨"exam", examItem.members, [("grade_id", .obj [])]⟩] := rfl
  rw [Contents.catalog, hitems]
  simp only [examContents, henums, readDefinitions, readDefinition, readAttributes, readAttribute,
    hget, Json.merge_empty, ofShape_membersFor, bind, Except.bind, htype, henum, readEnum_gradeEnum]
  exact ⟨_, _, rfl, rfl, _, _, rfl, rfl, rfl⟩

theorem read_examTree : ∃ c s, (read examTree ⟨"", []⟩).outcome.1 = .ok c ∧
    c.resolve.outcome.1 = .ok s ∧
    ∃ e a, s.objects.get? "exam" = some e ∧ e.attributes.get? "grade_id" = some a ∧
      a.enumValues = some gradeValues := by
  obtain ⟨c, s, hcatalog, hresolve, hexam⟩ := catalog_examContents
  exact ⟨c, s, (says_examDocuments.outcome_read rfl).trans hcatalog, hresolve, hexam⟩

theorem not_ascending_gradeValues : ¬ Ascending gradeValues := by
  intro h
  exact absurd ((List.pairwise_cons.1 h).1 _ List.mem_cons_self) (by decide)

/-- The grade of an exam has one definition alone, and that has one number twice. -/
theorem enumerated_of_read_examTree : ∃ c s, (read examTree ⟨"", []⟩).outcome.1 = .ok c ∧
    c.resolve.outcome.1 = .ok s ∧ ∃ chain us, lineage c.objects "exam" = .ok chain ∧
      (definers chain "grade_id").filterMap (·.enumValues) = [us] ∧ ¬ Ascending us := by
  obtain ⟨c, s, hread, hresolve, e, a, he, ha, hvalues⟩ := read_examTree
  obtain ⟨dict, objects, events, -, hall⟩ := enumerated_of_read examTree ⟨"", []⟩ c s hread hresolve
  obtain ⟨chain, hchain, hnumbered⟩ :=
    hall.objects.inherited "exam" e "grade_id" a gradeValues he ha hvalues
  have hcondition := mt hnumbered.ascending_iff.2 not_ascending_gradeValues
  simp only [Classical.not_forall] at hcondition
  obtain ⟨us, hus, hascending⟩ := hcondition
  exact ⟨c, s, hread, hresolve, chain, us, hchain, hus, hascending⟩

/-- The list of values of an attribute need not ascend. -/
theorem repeats_of_examTree : ∃ c s, (read examTree ⟨"", []⟩).outcome.1 = .ok c ∧
    c.resolve.outcome.1 = .ok s ∧ ∃ e a vs, s.objects.get? "exam" = some e ∧
      e.attributes.get? "grade_id" = some a ∧ a.enumValues = some vs ∧ ¬ Ascending vs := by
  obtain ⟨c, s, hread, hresolve, e, a, he, ha, hvalues⟩ := read_examTree
  exact ⟨c, s, hread, hresolve, e, a, gradeValues, he, ha, hvalues, not_ascending_gradeValues⟩

end Catalog

end EventSchema
