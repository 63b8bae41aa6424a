import EventSchema.Proofs.Catalog.Documents
import EventSchema.Proofs.Package.FieldNames
import EventSchema.Proofs.Package.Numbering
import EventSchema.Proofs.Payload.Checking

/-!
# The activities of an event class

The activities of an event class are shown three times: by an enumeration of their own, by the type
of the field `activity_id`, and by a table of captions if the class has labels for them. The field
and the table have the numbers that the class gives. The enumeration also has the numbers for what
is not known and for what has no value of its own, so the three agree exactly if the class gives
these two (`Package.activities_of_read`). An event with one of them is refused by a class that does
not give it.
-/

namespace EventSchema

open EnumValue

/-- The numbers that an attribute gives. -/
def Attribute.numbers (a : Attribute) : List Int := a.values.map EnumValue.value

/-- The integers that a value gives: the value itself, or items of an array. -/
def Json.integers : Json → List Int
  | .int k => [k]
  | .arr items => items.filterMap fun item ↦
    match item with
    | .int k => some k
    | _ => none
  | _ => []

namespace Package

open Identifier

variable {p : Plan} {e : Entity} {m : EntityModule} {a : Attribute}
  {enum : EnumModel} {key : String}

/-! ### The numbers of a field -/

/-- The numbers that some content is limited to, if it is. -/
def Content.numbers? : Content → Option (List Int)
  | .numbers values => some values
  | _ => none

/-- The numbers that the type of a field is limited to, arrays and null aside. -/
def ModelType.numbers? : ModelType → Option (List Int)
  | .name _ => none
  | .numbers values => some values
  | .list items => items.numbers?
  | .optional type => type.numbers?

/-- The type of a field is limited to the numbers of its content. -/
theorem numbers?_of_contentTypes {planned : Table Entity} {d : Deferral} {c : Content}
    {types : ModelType × EntryType} (h : contentTypes planned d e c = .ok types) :
    types.1.numbers? = c.numbers? := by
  cases c with
  | reference object =>
    rw [contentTypes] at h
    cases hget : planned.get? object with
    | none =>
      rw [hget] at h
      cases h
    | some target =>
      rw [hget] at h
      cases h
      cases linkOf d e object target <;> rfl
  | numbers values =>
    cases h
    rfl
  | scalar type =>
    cases h
    rfl

/-- The type of a field is limited to numbers if the content of its attribute is. -/
theorem numbers?_of_fieldOf {planned : Table Entity} {d : Deferral} {f : Field × Entry}
    (h : fieldOf planned d e a = .ok f) : f.1.type.numbers? = (contentOf a).numbers? := by
  obtain ⟨⟨model, entry⟩, htypes, h⟩ := bind_eq_ok h
  cases h
  rw [← numbers?_of_contentTypes htypes]
  cases a.isRequired <;> cases a.isArray <;> rfl

/-- An attribute whose name is a field name without an underscore at its end has the field of that
name to itself. -/
theorem exists_get?_fieldTable (hkeyed : KeyedAttributes e.attributes)
    (hm : EntityModule.of p e = .ok m) (ha : e.attributes.get? key = some a)
    (hfield : fieldName key = key) (hlast : key.toList.getLast? ≠ some '_') :
    ∃ f, m.fieldTable.get? key = some f ∧ f.attribute = key ∧
    f.type.numbers? = (contentOf a).numbers? := by
  obtain ⟨fields, hfields, hmodel, -⟩ := (EntityModule.madeOf hm).fields
  have hmem : a ∈ e.attributes.values := Table.mem_values_iff.2 ⟨key, ha⟩
  have hname : a.name = key := hkeyed key a ha
  obtain ⟨f, hf⟩ := exists_of_mapM_ok hfields hmem
  obtain ⟨hfname, hattribute, -⟩ := names_of_fieldOf hf
  rw [hname, hfield] at hfname
  have hfmem : f.1 ∈ m.fields :=
    hmodel ▸ List.mem_map_of_mem ((mem_of_mapM_ok hfields).2 ⟨a, hmem, hf⟩)
  have hsame : ∀ g ∈ m.fields, g.name = f.1.name → g = f.1 := by
    intro g hg hgname
    rw [hmodel] at hg
    obtain ⟨g', hg', rfl⟩ := List.mem_map.1 hg
    obtain ⟨b, hb, hgb⟩ := (mem_of_mapM_ok hfields).1 hg'
    rw [(names_of_fieldOf hgb).1, hfname] at hgname
    have hbname := eq_of_fieldName_eq hlast hgname
    obtain rfl : b = a := Option.some.inj ((hkeyed.get?_name hb).symm.trans (hbname ▸ ha))
    exact congrArg Prod.fst (Except.ok.inj (hgb.symm.trans hf))
  refine ⟨f.1, ?_, hattribute.trans hname, numbers?_of_fieldOf hf⟩
  rw [← hfname]
  exact Table.get?_ofList_map_of_mem hfmem hsame

/-- The rule of that name is then the rule of the attribute. -/
theorem get?_fields_ofEntity (hkeyed : KeyedAttributes e.attributes)
    (ha : e.attributes.get? key = some a) (hfield : fieldName key = key)
    (hlast : key.toList.getLast? ≠ some '_') :
    (Model.ofEntity e).fields.get? key = some (.ofAttribute a) := by
  have hmem : a ∈ e.attributes.values := Table.mem_values_iff.2 ⟨key, ha⟩
  have hname : fieldName a.name = key := (congrArg fieldName (hkeyed key a ha)).trans hfield
  have hget : (Model.ofEntity e).fields.get? (fieldName a.name) = some (.ofAttribute a) := by
    refine Table.get?_ofList_map_of_mem hmem fun b hb hbfield ↦ ?_
    have hbname := eq_of_fieldName_eq hlast (hbfield.trans hname)
    rw [Option.some.inj ((hkeyed.get?_name hb).symm.trans (hbname ▸ ha))]
  rwa [hname] at hget

/-! ### The numbers of a table of captions -/

/-- The values of a labelled attribute are those of the attribute of its name. -/
theorem values_of_labelledAttributes (hkeyed : KeyedAttributes e.attributes)
    {labelled : List LabelledAttribute} {l : LabelledAttribute}
    (h : labelledAttributes e = .ok labelled) (hl : l ∈ labelled)
    (ha : e.attributes.get? l.name = some a) : l.values = a.values := by
  obtain ⟨b, hb, hlabel⟩ := exists_of_mem_labelledAttributes h hl
  obtain ⟨hname, hvalues, -⟩ := exists_of_labelled? hlabel
  obtain rfl : b = a := Option.some.inj ((hkeyed.get?_name hb).symm.trans (hname ▸ ha))
  exact hvalues

/-- A table of captions that belongs to one attribute alone has the values of that attribute. -/
theorem get?_captionTables_of_module (hkeyed : KeyedAttributes e.attributes)
    (hm : EntityModule.of p e = .ok m) {l : LabelledAttribute} (hl : l ∈ m.labelled)
    (ha : e.attributes.get? l.name = some a)
    (halone : ∀ other ∈ m.labelled, other.labelsName = l.labelsName → other.name = l.name) :
    (captionTables m.labelled).get? l.labelsName = some a.values := by
  rcases labelled_of_module hm with ⟨-, hlabelled⟩ | ⟨-, hnone⟩
  · rw [← values_of_labelledAttributes hkeyed hlabelled hl ha]
    refine Table.get?_ofList_map_of_mem hl fun other hother hname ↦ ?_
    have hsame := halone other hother hname
    rw [values_of_labelledAttributes hkeyed hlabelled hother (hsame ▸ ha),
      values_of_labelledAttributes hkeyed hlabelled hl ha]
  · rw [hnone] at hl
    cases hl

/-! ### The numbers that are accepted -/

section Accepted

variable {V : Validator} {models : Table Model} {isArray : Bool} {numbers : List Int} {k : Int}

/-- A field of numbers that is no array accepts its numbers, and a field that is one no integer. -/
theorem exists_check_int_iff (hV : V.Checks) :
    (∃ v, V.check models (.int k) isArray (.numbers numbers) = .ok v) ↔
      isArray = false ∧ k ∈ numbers := by
  cases isArray with
  | false => rw [hV.exists_int_iff, eq_self, true_and]
  | true =>
    refine iff_of_false ?_ fun h ↦ Bool.noConfusion h.1
    rintro ⟨a, ha⟩
    obtain ⟨items, vs, heq, -⟩ := (hV.items models _ _ a).1 ha
    cases heq

/-- A field of numbers that is an array accepts arrays of its numbers, and a field that is none no
array. -/
theorem exists_check_ints_iff (hV : V.Checks) {ks : List Int} :
    (∃ v, V.check models (.arr (ks.map .int)) isArray (.numbers numbers) = .ok v) ↔
      isArray = true ∧ ∀ k ∈ ks, k ∈ numbers := by
  cases isArray with
  | false =>
    refine iff_of_false ?_ fun h ↦ Bool.noConfusion h.1
    rintro ⟨a, ha⟩
    obtain ⟨n, -, -, hvalue | hloose⟩ := hV.number_only models numbers _ a ha
    · cases hvalue
    · cases hloose
  | true =>
    rw [hV.exists_items_iff, List.forall_mem_map, eq_self, true_and]
    exact forall₂_congr fun k _ ↦ hV.exists_int_iff

/-- What a field of numbers accepts gives no other integers. -/
theorem mem_of_check {v : Json} {a : Payload.Accepted} (hV : V.Checks)
    (h : V.check models v isArray (.numbers numbers) = .ok a) (hk : k ∈ v.integers) :
    k ∈ numbers := by
  cases isArray with
  | false =>
    obtain ⟨n, hn, -, rfl | hloose⟩ := hV.number_only models numbers v a h
    · rwa [List.mem_singleton.1 hk]
    · cases v with
      | int _ => cases hloose
      | arr _ => cases hloose
      | _ => cases hk
  | true =>
    obtain ⟨items, -, rfl, -⟩ := (hV.items models v _ a).1 h
    obtain ⟨item, hitem, heq⟩ := List.mem_filterMap.1 hk
    have hint : item = .int k := by
      split at heq
      · exact congrArg Json.int (Option.some.inj heq)
      · cases heq
    exact hV.exists_int_iff.1 (hV.exists_items_iff.1 ⟨a, h⟩ _ (hint ▸ hitem))

/-- An accepted payload gives no other integers for a field of numbers. -/
theorem mem_of_checkModel {model : Model} {data : Payload} {rule : FieldRule} {v : Json}
    {a : Payload.Accepted} (hV : V.Checks) (h : V.checkModel models model (.obj data) = .ok a)
    (hrule : rule ∈ model.fields.values) (hcontent : rule.content = .numbers numbers)
    (hv : Entries.get? data rule.key = some v) (hk : k ∈ v.integers) : k ∈ numbers := by
  obtain ⟨_, outcome, heq, houtcome, -⟩ := hV.exists_obj h
  obtain rfl := Json.obj.inj heq
  have hmember := Payload.memberOf?_of_key hv
  have hrule := houtcome rule hrule
  generalize outcome rule = o at hrule
  cases hrule with
  | absent hnone => cases hmember.symm.trans hnone
  | null key hnull =>
    cases hmember.symm.trans hnull
    cases hk
  | value key w accepted hvalue _ hcheck =>
    cases hmember.symm.trans hvalue
    exact mem_of_check hV (hcontent ▸ hcheck) hk

end Accepted

/-! ### Activities -/

/-- An enumeration of activities has the numbers that the class gives, one of them neither of the
two that are added, and these two. -/
theorem EnumModel.exists_of_activities? (h : EnumModel.activities? e = some enum) :
    ∃ a, e.attributes.get? "activity_id" = some a ∧ (∃ k ∈ a.numbers, k ≠ 0 ∧ k ≠ 99) ∧
      ∀ k, k ∈ enum.values.map EnumValue.value ↔ k = 0 ∨ k = 99 ∨ k ∈ a.numbers := by
  unfold activities? at h
  split at h
  · cases h
  · next a ha =>
    split at h
    · next hany =>
      obtain rfl := Option.some.inj h
      obtain ⟨v, hv, hne⟩ := List.any_eq_true.1 hany
      rw [Bool.and_eq_true, decide_eq_true_eq, decide_eq_true_eq] at hne
      refine ⟨a, ha, ⟨v.value, List.mem_map_of_mem hv, hne⟩, fun k ↦ ?_⟩
      rw [mem_values_byNumber, List.map_append, List.mem_append, ← or_assoc]
      simp [unknownValue, otherValue, Attribute.numbers]
    · cases h

/-- The activities of an event class in its enumeration, its field and its table of captions. -/
structure Activities (e : Entity) (enum : EnumModel) (m : EntityModule) (a : Attribute) : Prop where
  given : e.attributes.get? "activity_id" = some a
  /-- The enumeration has the numbers of the attribute and the two for what is unknown and for what
  is other. -/
  members : ∀ k, k ∈ enum.values.map EnumValue.value ↔ k = 0 ∨ k = 99 ∨ k ∈ a.numbers
  /-- The attribute has another number than these two. -/
  own : ∃ k ∈ a.numbers, k ≠ 0 ∧ k ≠ 99
  /-- The field is limited to the numbers of the attribute, unless this refers to an object. -/
  field : ∃ f, m.fieldTable.get? "activity_id" = some f ∧ f.attribute = "activity_id" ∧
    f.type.numbers? = if a.isReference then none else some a.numbers
  /-- The captions have them as well, if no other attribute has a table of the same name. -/
  captions : ∀ l ∈ m.labelled, l.name = "activity_id" →
    (∀ other ∈ m.labelled, other.labelsName = "ACTIVITY_ID_LABELS" → other.name = "activity_id") →
    (captionTables m.labelled).get? "ACTIVITY_ID_LABELS" = some a.values
  /-- So they agree with the enumeration exactly if the attribute has the two numbers itself. -/
  agree : (∀ k, k ∈ enum.values.map EnumValue.value ↔ k ∈ a.numbers) ↔
    0 ∈ a.numbers ∧ 99 ∈ a.numbers
  /-- By every validator that keeps to the rules, an integer is accepted for the field exactly if
  this is no array and the attribute has that number. -/
  accepted : a.isReference = false → ∀ V : Validator, V.Checks → ∀ models k,
    (∃ v, V.check models (.int k) a.isArray (contentOf a) = .ok v) ↔
    a.isArray = false ∧ k ∈ a.numbers
  /-- An array of integers is accepted exactly if the field is an array and the attribute has them
  all. -/
  acceptedItems : a.isReference = false → ∀ V : Validator, V.Checks → ∀ models (ks : List Int),
    (∃ v, V.check models (.arr (ks.map .int)) a.isArray (contentOf a) = .ok v) ↔
      a.isArray = true ∧ ∀ k ∈ ks, k ∈ a.numbers
  /-- So an event that is accepted gives no other integers. -/
  events : a.isReference = false → ∀ V : Validator, V.Checks →
    ∀ models checked data out v activity, EventModel.ofEntity e = .ok checked →
    checked.checkBy V models (.obj data) = .ok v → checked.prepare data = .ok out →
    Entries.get? out "activity_id" = some activity → ∀ k ∈ activity.integers, k ∈ a.numbers

/-- An activity with a number of its own is limited to its numbers. -/
theorem contentOf_activity (hname : a.name = "activity_id") (hown : ∃ k ∈ a.numbers, k ≠ 0 ∧ k ≠ 99)
    (hreference : a.isReference = false) : contentOf a = .numbers a.numbers := by
  have hid : "activity_id".endsWith "_id" = true := by decide +kernel
  have henum : a.isEnum = true := by
    obtain ⟨k, hk, -⟩ := hown
    obtain ⟨v, hv, -⟩ := List.mem_map.1 hk
    have hempty : a.values.isEmpty = false := Bool.eq_false_iff.2 fun hnil ↦ by
      rw [List.isEmpty_iff.1 hnil] at hv
      cases hv
    rw [Attribute.isEnum, hname, hempty, hid]
    rfl
  have htarget : a.target = none :=
    Option.isNone_iff_eq_none.1 (Option.isSome_eq_false_iff.1 hreference)
  rw [contentOf, htarget]
  exact if_pos henum

/-- The module of an event class with activities has them in its enumeration, field and table. -/
theorem activities_of_module (hkeyed : KeyedAttributes e.attributes)
    (henum : EnumModel.activities? e = some enum) (hm : EntityModule.of p e = .ok m) :
    ∃ a, Activities e enum m a := by
  obtain ⟨a, ha, hown, hmembers⟩ := EnumModel.exists_of_activities? henum
  have hname : a.name = "activity_id" := hkeyed _ a ha
  have hfield : fieldName "activity_id" = "activity_id" := by decide +kernel
  have hlast : "activity_id".toList.getLast? ≠ some '_' := by decide +kernel
  refine ⟨a, ?_⟩
  constructor
  case given => exact ha
  case members => exact hmembers
  case own => exact hown
  case field =>
    obtain ⟨f, hf, hattribute, hnumbers⟩ := exists_get?_fieldTable hkeyed hm ha hfield hlast
    refine ⟨f, hf, hattribute, hnumbers.trans ?_⟩
    cases hreference : a.isReference with
    | true =>
      obtain ⟨object, hobject⟩ := Option.isSome_iff_exists.1 hreference
      rw [contentOf, hobject]
      rfl
    | false =>
      rw [contentOf_activity hname hown hreference]
      rfl
  case captions =>
    intro l hl hlname halone
    have hlabels : l.labelsName = "ACTIVITY_ID_LABELS" := by
      rw [LabelledAttribute.labelsName, hlname]
      decide +kernel
    rw [← hlabels, ← hlname] at halone
    rw [← hlabels]
    exact get?_captionTables_of_module hkeyed hm hl (hlname ▸ ha) halone
  case agree =>
    constructor
    · exact fun hall ↦
        ⟨(hall 0).1 ((hmembers 0).2 (.inl rfl)), (hall 99).1 ((hmembers 99).2 (.inr (.inl rfl)))⟩
    · rintro ⟨hunknown, hother⟩ k
      rw [hmembers]
      refine ⟨?_, fun hk ↦ .inr (.inr hk)⟩
      rintro (rfl | rfl | hk)
      · exact hunknown
      · exact hother
      · exact hk
  case accepted =>
    intro hreference V hV models k
    rw [contentOf_activity hname hown hreference]
    exact exists_check_int_iff hV
  case acceptedItems =>
    intro hreference V hV models ks
    rw [contentOf_activity hname hown hreference]
    exact exists_check_ints_iff hV
  case events =>
    intro hreference V hV models checked data out v activity hchecked hv hprepare hactivity k hk
    obtain ⟨hmodel, -, -⟩ := EventModel.parts_of_ofEntity hchecked
    rw [EventModel.checkBy, hprepare, hmodel] at hv
    have hrule := get?_fields_ofEntity hkeyed ha hfield hlast
    refine mem_of_checkModel hV hv (Table.mem_values_iff.2 ⟨_, hrule⟩)
      (contentOf_activity hname hown hreference) ?_ hk
    exact (congrArg (Entries.get? out) hname).trans hactivity

/-- **Activities.** If an event class of a schema that was read and worked out has an enumeration of
its activities, this has the numbers that the class gives and the two for what is unknown and for
what is other. The field `activity_id` is limited to the numbers that the class gives, or refers to
an object, and the captions of the class have these numbers too. -/
theorem activities_of_read (tree : FileTree) (path : Path) (c : Catalog) (s : Schema)
    (n : String) (e : Entity) (enum : EnumModel) (p : Plan) (m : EntityModule)
    (hread : (Catalog.read tree path).outcome.1 = .ok c)
    (hresolve : c.resolve.outcome.1 = .ok s) (he : s.events.get? n = some e)
    (henum : EnumModel.activities? e = some enum) (hm : EntityModule.of p e = .ok m) :
    ∃ a, Activities e enum m a :=
  activities_of_module ((Schema.keyedAttributes_of_read hread hresolve).2 n e he) henum hm

/-! ### Logons with one activity -/

/-- The documents of an event class of one activity, which is neither of the two that are added. -/
def logonDocuments : Catalog.Documents where
  version := "\x7b\"version\": \"1.0.0\"\x7d"
  categories := "\x7b\"attributes\": \x7b\"iam\": \x7b\"uid\": 3\x7d\x7d\x7d"
  dictionary := "\x7b\"attributes\":\x7b\"activity_id\":\x7b\"type\":\"integer_t\"," ++
      "\"enum\":\x7b\"1\":\x7b\x7d\x7d\x7d\x7d\x7d"
  events := [("logon.json", "\x7b\"name\":\"logon\",\"category\":\"iam\",\"uid\":2," ++
      "\"closed\":false,\"attributes\":\x7b\"activity_id\":\x7b\x7d\x7d\x7d")]

/-- A schema tree with that event class. -/
def logonTree : FileTree := logonDocuments.tree

/-- What its dictionary says of activities. -/
def activityDetails : Entries Json := [("type", .str "integer_t"), ("enum", .obj [("1", .obj [])])]

/-- Its event class. -/
def logonItem : Catalog.Item where
  path := ⟨"", ["events", "logon.json"]⟩
  name := "logon"
  members :=
    [("name", .str "logon"), ("category", .str "iam"), ("uid", .int 2), ("closed", .bool false),
      ("attributes", .obj [("activity_id", .obj [])])]

/-- The activity, whose caption is its number. -/
def logonValue : EnumValue := ⟨1, .str "1", ""⟩

/-- The attribute for the activity. -/
def logonActivity : Attribute where
  name := "activity_id"
  scalarType := "integer_t"
  target := none
  isArray := false
  requirement := .str "optional"
  caption := .str ""
  description := ""
  sibling := .null
  enumValues := some [logonValue]
  deprecation := none
  profile := .null
  overrides := .ofList []

/-- The catalog of the tree. -/
def logonCatalog : Catalog where
  version := .str "1.0.0"
  categories := Table.empty.put "iam" (.number 3)
  objects := .empty
  events := Table.empty.put "logon" {
    kind := .event
    name := "logon"
    ancestor := none
    caption := .str ""
    description := ""
    attributes := Table.empty.put "activity_id" logonActivity
    closed := some false
    category := .str "iam"
    uid := some (.number 2)
    isHidden := false }
  enums := Table.empty.put "activity_id" ⟨"activity_id", .str "", [logonValue]⟩

/-- The event class with all that it inherits, which is nothing. -/
def logonEntity : Entity where
  kind := .event
  name := "logon"
  caption := .str ""
  description := ""
  attributes := Table.empty.put "activity_id" logonActivity
  closed := false
  isHidden := false
  ancestor := none
  category := some "iam"
  categoryUid := .number 3
  classUid := 3002

/-- What the catalog comes to. -/
def logonSchema : Schema :=
  ⟨.str "1.0.0", .empty, Table.empty.put "logon" logonEntity,
    Table.empty.put "activity_id" ⟨"activity_id", .str "", [logonValue]⟩⟩

theorem readEnum_logon : Catalog.readEnum (.obj [("1", .obj [])]) = .ok (some [logonValue]) := by
  have hone : Text.readInteger? "1" = some 1 := by decide +kernel
  have hvalues : Catalog.enumValues [("1", .obj [])] = .ok [logonValue] := by
    simp only [Catalog.enumValues, Catalog.enumValue?_empty hone]
    rfl
  rw [Catalog.readEnum, hvalues]
  dsimp only [bind, Except.bind]
  rw [List.mergeSort_singleton]
  rfl

/-- The activity is read with its number for a caption. -/
theorem readAttribute_logon {dict : Catalog.Dictionary}
    (hdict : dict.attributes = [("activity_id", .obj activityDetails)]) (place : String) :
    Catalog.readAttribute dict place "activity_id" (.obj []) = .ok logonActivity := by
  have hget : Entries.get? [("activity_id", Json.obj activityDetails)] "activity_id" =
    some (.obj activityDetails) := rfl
  have htype :
      Catalog.readType dict place "activity_id" activityDetails = .ok ("integer_t", .null) :=
    Catalog.readType_of_scalar rfl (by decide) (by decide +kernel)
  have henum : (Entries.get? activityDetails "enum").getD .null = .obj [("1", .obj [])] := rfl
  have hdescription : (Entries.get? activityDetails "description").getD (.str "") = .str "" := rfl
  simp only [Catalog.readAttribute, hdict, hget, Json.merge_empty, Catalog.ofShape_membersFor, bind,
    Except.bind, htype, henum, hdescription, Catalog.plainText_empty, readEnum_logon]
  rfl

/-- What the documents say. -/
def logonContents : Catalog.Contents where
  version := .str "1.0.0"
  categories := [("attributes", .obj [("iam", .obj [("uid", .int 3)])])]
  attributes := [("activity_id", .obj activityDetails)]
  types := []
  objects := []
  events := [logonItem]
  profiles := []

theorem says_logonDocuments : Catalog.Says logonDocuments logonContents where
  version := ⟨_, .of_chars rfl rfl, rfl⟩
  categories := .of_chars rfl rfl
  dictionary := ⟨_, _, .of_chars (Catalog.append_eq_ofList rfl rfl) rfl, rfl, rfl, rfl⟩
  objects := .nil _ _
  events := ⟨by decide +kernel, by decide,
    .cons ⟨rfl, rfl, ⟨.of_chars (Catalog.append_eq_ofList rfl rfl) rfl, rfl, by decide⟩⟩ .nil⟩
  profiles := .nil _ _
  plain := by decide +kernel

theorem catalog_logonContents : logonContents.catalog = .ok logonCatalog := by
  have henums :
      Catalog.readSharedEnums [("activity_id", .obj activityDetails)] = .ok logonCatalog.enums :=
    Catalog.readSharedEnums_singleton (by decide +kernel) readEnum_logon
  have hattribute := readAttribute_logon
    (show Catalog.Dictionary.attributes ⟨[("activity_id", .obj activityDetails)], [], [], false⟩ =
      [("activity_id", .obj activityDetails)] from rfl)
  have hdescription : (Entries.get? logonItem.members "description").getD (.str "") = .str "" := rfl
  have hitems : logonContents.events.map Catalog.Item.plain =
    [⟨"logon", logonItem.members, [("activity_id", .obj [])]⟩] := rfl
  have hdatetime :
      Catalog.readDatetime logonContents.profiles logonContents.types = .ok false := rfl
  rw [Catalog.Contents.catalog, hitems, hdatetime]
  simp only [logonContents, List.map, Catalog.readDefinitions, Catalog.readDefinition,
    Catalog.readAttributes, hattribute, henums, hdescription, Catalog.plainText_empty, bind,
    Except.bind]
  rfl

/-- The tree of logons is read as its catalog. -/
theorem read_logonTree : (Catalog.read logonTree ⟨"", []⟩).outcome.1 = .ok logonCatalog :=
  (says_logonDocuments.outcome_read rfl).trans catalog_logonContents

theorem resolve_logonCatalog : logonCatalog.resolve.outcome.1 = .ok logonSchema := rfl

/-- The enumeration of activities has its own value and the two that are added. -/
theorem exists_activities_logonEntity : ∃ enum, EnumModel.activities? logonEntity = some enum ∧
    enum.values = [EnumModel.unknownValue, logonValue, EnumModel.otherValue] :=
  ⟨_, rfl, rfl⟩

/-- There is a plan with the event class. -/
theorem exists_plan_logonSchema : ∃ enums,
    plan logonSchema nothingLate = .ok ⟨logonSchema, nothingLate, .empty, logonSchema.events, enums,
      []⟩ := by
  have hevents : plannedEvents logonSchema = logonSchema.events := by
    rw [plannedEvents, Table.sorted_eq_self (List.pairwise_singleton _ _)]
    rfl
  obtain ⟨enums, henums⟩ : ∃ enums, plannedEnums logonSchema logonSchema.events = .ok enums :=
    exists_of_isOk (by decide +kernel)
  obtain ⟨⟨⟩, hnames⟩ : ∃ u, checkNames eventsPackage logonSchema.events = .ok u :=
    exists_of_isOk (by decide +kernel)
  refine ⟨enums,
    plan_eq_ok_iff.2 ⟨rfl, rfl, hevents.symm, ?_, ?_, rfl, hnames, objectOrder_empty _⟩⟩
  · exact plannedObjects_of_empty rfl (by rw [hevents]; rfl)
  · rwa [hevents]

/-- The event class has a module. -/
theorem exists_module_logonEntity : ∃ p m, plan logonSchema nothingLate = .ok p ∧
    p.events.get? "logon" = some logonEntity ∧ EntityModule.of p logonEntity = .ok m := by
  obtain ⟨enums, hplan⟩ := exists_plan_logonSchema
  have hmodule : (EntityModule.of ⟨logonSchema, nothingLate, .empty, logonSchema.events, enums, []⟩
      logonEntity).isOk = true := by
    rw [EntityModule.of]
    dsimp only
    decide +kernel
  obtain ⟨m, hm⟩ := exists_of_isOk hmodule
  exact ⟨_, m, hplan, rfl, hm⟩

theorem ofEntity_logonEntity :
    EventModel.ofEntity logonEntity =
      .ok ⟨.ofEntity logonEntity, ⟨.number 3, .number 3002⟩, []⟩ := by
  have hlabelled : labelled? logonEntity.attributes logonActivity = .ok none := by
    rw [labelled?, show logonActivity.sibling.isGiven = false from rfl, Bool.and_false]
    rfl
  have hvalues : logonEntity.attributes.values = [logonActivity] := rfl
  rw [EventModel.ofEntity, labelledAttributes, hvalues, List.mapM_cons, hlabelled]
  rfl

/-- The enumeration of logons has the number for what is unknown, which the field does not have. -/
theorem activities_of_read_logonTree :
    ∃ enum p m a, (Catalog.read logonTree ⟨"", []⟩).outcome.1 = .ok logonCatalog ∧
    logonCatalog.resolve.outcome.1 = .ok logonSchema ∧
    logonSchema.events.get? "logon" = some logonEntity ∧
    EnumModel.activities? logonEntity = some enum ∧ EntityModule.of p logonEntity = .ok m ∧
    Activities logonEntity enum m a ∧ a.numbers = [1] := by
  obtain ⟨enum, henum, -⟩ := exists_activities_logonEntity
  obtain ⟨p, m, -, -, hm⟩ := exists_module_logonEntity
  obtain ⟨a, ha⟩ :=
    activities_of_read logonTree ⟨"", []⟩ logonCatalog logonSchema "logon" logonEntity enum p m
    read_logonTree resolve_logonCatalog rfl henum hm
  obtain rfl : logonActivity = a := Option.some.inj ha.given
  exact ⟨enum, p, m, _, read_logonTree, resolve_logonCatalog, rfl, henum, hm, ha, rfl⟩

/-- The enumeration of the activities of an event class need not have the numbers of the field, and
an event with a number of the enumeration may be refused, by every validator that keeps to the
rules. -/
theorem activities_differ_of_logonTree : ∃ enum p m f checked,
    (Catalog.read logonTree ⟨"", []⟩).outcome.1 = .ok logonCatalog ∧
    logonCatalog.resolve.outcome.1 = .ok logonSchema ∧ plan logonSchema nothingLate = .ok p ∧
    p.events.get? "logon" = some logonEntity ∧ EnumModel.activities? logonEntity = some enum ∧
    EntityModule.of p logonEntity = .ok m ∧ m.fieldTable.get? "activity_id" = some f ∧
    EventModel.ofEntity logonEntity = .ok checked ∧ enum.values.map EnumValue.value = [0, 1, 99] ∧
    f.type.numbers? = some [1] ∧ ∀ V : Validator, V.Checks →
      ∀ v, checked.checkBy V p.models (.obj [("activity_id", .int 0)]) ≠ .ok v := by
  obtain ⟨enum, henum, hvalues⟩ := exists_activities_logonEntity
  obtain ⟨p, m, hplan, hlogon, hm⟩ := exists_module_logonEntity
  have hkeyed : KeyedAttributes logonEntity.attributes :=
    (Schema.keyedAttributes_of_read read_logonTree resolve_logonCatalog).2 "logon" logonEntity rfl
  obtain ⟨a, ha⟩ := activities_of_module hkeyed henum hm
  obtain rfl : logonActivity = a := Option.some.inj ha.given
  obtain ⟨f, hf, -, hnumbers⟩ := ha.field
  refine ⟨enum, p, m, f, _, read_logonTree, resolve_logonCatalog, hplan, hlogon, henum, hm, hf,
    ofEntity_logonEntity, congrArg (List.map EnumValue.value) hvalues, hnumbers, fun V hV v hv ↦ ?_⟩
  have hmem :=
    ha.events rfl V hV p.models _ [("activity_id", .int 0)] _ v _ ofEntity_logonEntity hv rfl rfl
  exact absurd (hmem 0 (List.mem_singleton_self 0)) (by decide)

end Package

end EventSchema
