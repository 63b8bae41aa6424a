import EventSchema.Payload.Event
import EventSchema.Proofs.Catalog.Documents
import EventSchema.Proofs.Catalog.Keys
import EventSchema.Proofs.Json.Merging
import EventSchema.Proofs.Payload.Checking

/-!
# The members of a payload that was prepared

Making sibling fields agree brings in fields of the pairs alone (`Payload.names_of_reconcile`), and
the pairs of an event class are made of its own attributes. Filling in identifiers brings in the
identifiers of the category and of the class, and that of the type where it can be derived
(`Payload.mem_names_prefill`), whether or not they are attributes of the class. So a class that is
closed and lacks one of the former refuses every payload, while preparing a payload of any other
class keeps to its attributes unless the type is derived and is no attribute
(`EventModel.names_of_prepare`).
-/

namespace EventSchema

variable {data out : Payload} {p : SiblingPair} {key n : String} {v : Json}

/-! ### Making siblings agree -/

/-- What can be done to the fields of a pair: the number is set, or the label, or both. -/
theorem SiblingPair.reconcile_cases (h : p.reconcile data = .ok out) :
    out = data ∨ (∃ k, out = data.put p.idField (.int k)) ∨
      (∃ text, out = data.put p.labelField (.str text)) ∨
      ∃ k text, out = Entries.put (data.put p.idField (.int k)) p.labelField (.str text) := by
  unfold reconcile at h
  dsimp only at h
  split at h
  · unfold reconcileBoth at h
    split at h
    · exact .inl (Except.ok.inj h).symm
    · split at h
      · exact .inr (.inl ⟨_, (Except.ok.inj h).symm⟩)
      · split at h
        · exact .inl (Except.ok.inj h).symm
        · split at h
          · exact .inr (.inr (.inl ⟨_, (Except.ok.inj h).symm⟩))
          · cases h
  · obtain rfl := Except.ok.inj h
    unfold fillLabel
    split
    · exact .inr (.inr (.inl ⟨_, rfl⟩))
    · exact .inl rfl
  · obtain rfl := Except.ok.inj h
    unfold fillId
    split
    · dsimp only
      split
      · exact .inr (.inr (.inr ⟨_, _, rfl⟩))
      · exact .inr (.inl ⟨_, rfl⟩)
    · exact .inr (.inl ⟨_, rfl⟩)
  · exact .inl (Except.ok.inj h).symm

/-- Making the fields of a pair agree brings in these two fields at most. -/
theorem SiblingPair.names_of_reconcile (h : p.reconcile data = .ok out) (hn : n ∈ out.names) :
    n ∈ data.names ∨ n = p.idField ∨ n = p.labelField := by
  obtain rfl | ⟨k, rfl⟩ | ⟨text, rfl⟩ | ⟨k, text, rfl⟩ := reconcile_cases h
  · exact .inl hn
  · exact (Entries.mem_names_put.1 hn).imp_right .inl
  · exact (Entries.mem_names_put.1 hn).imp_right .inr
  · rcases Entries.mem_names_put.1 hn with hn | hn
    · exact (Entries.mem_names_put.1 hn).imp_right .inl
    · exact .inr (.inr hn)

/-- Making the fields of pairs agree brings in fields of the pairs alone. -/
theorem Payload.names_of_reconcile {pairs : List SiblingPair} (h : data.reconcile pairs = .ok out)
    (hn : n ∈ out.names) : n ∈ data.names ∨ ∃ p ∈ pairs, n = p.idField ∨ n = p.labelField := by
  induction pairs generalizing data with
  | nil =>
    cases h
    exact .inl hn
  | cons p pairs ih =>
    obtain ⟨next, hnext, h⟩ := bind_eq_ok h
    rcases ih h with hmem | ⟨q, hq, hfield⟩
    · rcases SiblingPair.names_of_reconcile hnext hmem with hmem | hfield
      · exact .inl hmem
      · exact .inr ⟨p, List.mem_cons_self, hfield⟩
    · exact .inr ⟨q, List.mem_cons_of_mem p hq, hfield⟩

/-! ### Filling in identifiers -/

namespace Payload

/-- A field that is put has the value that was put. -/
theorem value_put (data : Payload) (key n : String) (v : Json) :
    Payload.value (data.put key v) n = if key = n then v else data.value n := by
  rw [value, Entries.get?_put]
  split
  · rfl
  · rfl

/-- A field that is missing counts as null. -/
theorem value_eq_null_of_not_mem (h : n ∉ data.names) : data.value n = .null := by
  rw [value, Entries.get?_eq_none_iff.2 h]
  rfl

/-- A field with a value is given. -/
theorem mem_names_of_value (h : (data.value n).isNull = false) : n ∈ data.names := by
  by_contra hn
  rw [value_eq_null_of_not_mem hn] at h
  cases h

/-- Filling in a field changes no other. -/
theorem value_putMissing_of_ne (hne : key ≠ n) :
    (data.putMissing key v).value n = data.value n := by
  rw [putMissing]
  split
  · rw [value_put, if_neg hne]
  · rfl

/-- Filling in a field adds its name. -/
theorem mem_names_putMissing : n ∈ (data.putMissing key v).names ↔ n ∈ data.names ∨ n = key := by
  rw [putMissing]
  split
  · exact Entries.mem_names_put
  · next hgiven =>
    -- a field that is left as it is has a value already
    have hkey : key ∈ data.names := mem_names_of_value (Bool.eq_false_iff.2 hgiven)
    exact ⟨.inl, fun h ↦ h.elim id fun heq ↦ heq ▸ hkey⟩

/-- The type of an event can be derived: its class and its activity are integers. -/
def DerivesType (data : Payload) : Prop :=
  ∃ classUid activity, data.value "class_uid" = .int classUid ∧
  data.value "activity_id" = .int activity

/-- The type is filled in from the class and the activity, if these are integers. -/
theorem putTypeUid_cases (data : Payload) :
    (∃ classUid activity, data.value "class_uid" = .int classUid ∧
      data.value "activity_id" = .int activity ∧
        putTypeUid data = data.putMissing "type_uid" (.int (typeUid classUid activity))) ∨
      ¬ data.DerivesType ∧ putTypeUid data = data := by
  unfold putTypeUid
  split
  · next classUid activity hclass hactivity =>
      exact .inl ⟨classUid, activity, hclass, hactivity, rfl⟩
  · next hnot =>
    exact .inr ⟨fun ⟨classUid, activity, hclass, hactivity⟩ ↦
      hnot classUid activity hclass hactivity, rfl⟩

/-- Whether the type can be derived does not depend on the type. -/
theorem derivesType_putMissing : (data.putMissing "type_uid" v).DerivesType ↔ data.DerivesType := by
  rw [DerivesType, DerivesType, value_putMissing_of_ne (by decide),
    value_putMissing_of_ne (by decide)]

/-- The type is the only name that filling it in may add. -/
theorem mem_names_putTypeUid :
    n ∈ (putTypeUid data).names ↔ n ∈ data.names ∨ n = "type_uid" ∧
    (putTypeUid data).DerivesType := by
  rcases putTypeUid_cases data with ⟨classUid, activity, hclass, hactivity, heq⟩ | ⟨hnot, heq⟩
  · rw [heq, mem_names_putMissing, derivesType_putMissing]
    exact or_congr_right (and_iff_left ⟨classUid, activity, hclass, hactivity⟩).symm
  · rw [heq]
    exact (or_iff_left fun h ↦ hnot h.2).symm

/-- Filling in identifiers brings in those of the category and of the class, and that of the type if
it can be derived. -/
theorem mem_names_prefill (config : UidConfig) (data : Payload) :
    n ∈ (prefill config data).names ↔ n ∈ data.names ∨ n = "category_uid" ∨ n = "class_uid" ∨
      n = "type_uid" ∧ (prefill config data).DerivesType := by
  rw [prefill, mem_names_putTypeUid, mem_names_putMissing, mem_names_putMissing, or_assoc, or_assoc]

end Payload

/-! ### Event classes -/

variable {e : Entity} {m : EventModel}

/-- A labelled attribute has its enumeration and a sibling among the attributes. -/
theorem Package.exists_of_labelled? {attributes : Table Attribute} {a : Attribute}
    {l : Package.LabelledAttribute} (h : Package.labelled? attributes a = .ok (some l)) :
    l.name = a.name ∧ l.values = a.values ∧ a.isEnum = true ∧ l.sibling ∈ attributes.names := by
  unfold Package.labelled? at h
  split at h
  · next hlabelled =>
    obtain ⟨found, -, h⟩ := bind_eq_ok h
    cases found with
    | none => cases h
    | some sibling =>
      have h := Except.ok.inj h
      split at h
      · next hsibling =>
        cases h
        exact ⟨rfl, rfl, (Bool.and_eq_true_iff.1 hlabelled).1, Table.has_iff.1 hsibling⟩
      · cases h
  · cases h

/-- The labelled attributes of an entity are found by going through its attributes. -/
theorem Package.exists_of_labelledAttributes {labelled : List Package.LabelledAttribute}
    (h : Package.labelledAttributes e = .ok labelled) :
    ∃ found, e.attributes.values.mapM (Package.labelled? e.attributes) = .ok found ∧
      found.filterMap id = labelled := by
  rw [Package.labelledAttributes] at h
  cases hmap : e.attributes.values.mapM (Package.labelled? e.attributes) with
  | error x =>
    rw [hmap] at h
    cases h
  | ok found =>
    rw [hmap] at h
    exact ⟨found, rfl, Except.ok.inj h⟩

/-- Each labelled attribute comes from an attribute. -/
theorem Package.exists_of_mem_labelledAttributes {labelled : List Package.LabelledAttribute}
    {l : Package.LabelledAttribute} (h : Package.labelledAttributes e = .ok labelled)
    (hl : l ∈ labelled) :
    ∃ a ∈ e.attributes.values, Package.labelled? e.attributes a = .ok (some l) := by
  obtain ⟨found, hfound, rfl⟩ := Package.exists_of_labelledAttributes h
  obtain ⟨l', hl', hid⟩ := List.mem_filterMap.1 hl
  obtain rfl : l' = some l := hid
  exact (mem_of_mapM_ok hfound).1 hl'

/-- The model of an event class is that of its entity, and its pairs are enumerated attributes with
others as their siblings. -/
theorem EventModel.parts_of_ofEntity (h : EventModel.ofEntity e = .ok m) :
    m.model = .ofEntity e ∧ m.config = ⟨e.categoryUid, .number e.classUid⟩ ∧
      ∀ p ∈ m.pairs, ∃ a ∈ e.attributes.values, p.idField = a.name ∧ a.isEnum = true ∧
        p.labelField ∈ e.attributes.names := by
  obtain ⟨labelled, hlabelled, h⟩ := bind_eq_ok h
  cases h
  refine ⟨rfl, rfl, fun p hp ↦ ?_⟩
  obtain ⟨l, hl, rfl⟩ := List.mem_map.1 hp
  obtain ⟨a, ha, hlabel⟩ := Package.exists_of_mem_labelledAttributes hlabelled hl
  obtain ⟨hname, -, henum, hsibling⟩ := Package.exists_of_labelled? hlabel
  exact ⟨a, ha, hname, henum, hsibling⟩

/-- The identifiers that are filled in. -/
def Payload.filledFields : List String := ["category_uid", "class_uid", "type_uid"]

namespace EventModel

/-- Preparing a payload is reconciling it and then filling in identifiers. -/
theorem exists_reconcile_of_prepare (h : m.prepare data = .ok out) :
    ∃ agreed, data.reconcile m.pairs = .ok agreed ∧ out = Payload.prefill m.config agreed := by
  rw [prepare] at h
  cases hagreed : data.reconcile m.pairs with
  | error x => rw [hagreed] at h; cases h
  | ok agreed => rw [hagreed] at h; exact ⟨agreed, rfl, (Except.ok.inj h).symm⟩

/-- A payload of attributes stays one until identifiers are filled in. -/
theorem mem_names_of_prepare (hm : EventModel.ofEntity e = .ok m)
    (hkeyed : KeyedAttributes e.attributes) (h : m.prepare data = .ok out)
    (hdata : ∀ key ∈ data.names, key ∈ e.attributes.names)
    (hn : n ∈ out.names) : n ∈ e.attributes.names ∨ n = "category_uid" ∨ n = "class_uid" ∨
      n = "type_uid" ∧ out.DerivesType := by
  obtain ⟨agreed, hagreed, rfl⟩ := exists_reconcile_of_prepare h
  refine ((Payload.mem_names_prefill _ _).1 hn).imp_left fun hn ↦ ?_
  rcases Payload.names_of_reconcile hagreed hn with hmem | ⟨p, hp, hfield⟩
  · exact hdata n hmem
  · obtain ⟨a, ha, hid, -, hlabel⟩ := (parts_of_ofEntity hm).2.2 p hp
    rcases hfield with rfl | rfl
    · exact hid ▸ hkeyed.mem_names ha
    · exact hlabel

/-- A prepared payload has its category, its class and, if it can be derived, its type. -/
theorem filled_of_prepare (h : m.prepare data = .ok out) :
    "category_uid" ∈ out.names ∧ "class_uid" ∈ out.names ∧
    (out.DerivesType → "type_uid" ∈ out.names) := by
  obtain ⟨agreed, -, rfl⟩ := exists_reconcile_of_prepare h
  simp only [Payload.mem_names_prefill]
  exact ⟨.inr (.inl trivial), .inr (.inr (.inl trivial)),
    fun hderives ↦ .inr (.inr (.inr ⟨trivial, hderives⟩))⟩

end EventModel

/-! ### Refused members -/

namespace EventModel

variable {V : Validator}

/-- A payload is checked as it was prepared. -/
theorem checkBy_of_prepare (h : m.prepare data = .ok out) (V : Validator) (models : Table Model) :
    m.checkBy V models (.obj data) = V.checkModel models m.model (.obj out) := by
  rw [checkBy, h]

/-- Identifiers that are no attributes of a closed class are refused. -/
theorem checkBy_error_of_filled (hV : V.Checks) (hm : EventModel.ofEntity e = .ok m)
    (hkeyed : KeyedAttributes e.attributes) (hclosed : e.closed = true)
    (h : m.prepare data = .ok out) (hfilled : key ∈ Payload.filledFields)
    (hkey : key ∉ e.attributes.names) (hout : key ∈ out.names) (models : Table Model) :
    ∃ ps, m.checkBy V models (.obj data) = .error ps ∧ ⟨[.key key], .unknownMember⟩ ∈ ps := by
  have hmodel := (parts_of_ofEntity hm).1
  obtain ⟨member, hmember, rfl⟩ := List.mem_map.1 hout
  rw [checkBy_of_prepare h]
  refine hV.unknown models _ _ (by rw [hmodel]; exact (Bool.not_eq_false' _).mpr hclosed) member
    (Payload.mem_extrasOf hmember fun rule hrule ↦ ?_)
  obtain ⟨a, ha, rfl⟩ := Model.exists_of_mem_ofEntity (hmodel ▸ hrule)
  have hname : member.1 ≠ a.name := fun heq ↦ hkey (heq ▸ hkeyed.mem_names ha)
  have hlast : member.1.toList.getLast? ≠ some '_' := by
    have hall : ∀ key ∈ Payload.filledFields, key.toList.getLast? ≠ some '_' := by decide
    exact hall _ hfilled
  exact ⟨hname, fun heq ↦ hname (Identifier.eq_of_fieldName_eq hlast heq.symm).symm⟩

/-- A closed class without the identifier of the category or of the class refuses every payload. -/
theorem exists_checkBy_error (hV : V.Checks) (hm : EventModel.ofEntity e = .ok m)
    (hkeyed : KeyedAttributes e.attributes) (hclosed : e.closed = true)
    (hlacks : "category_uid" ∉ e.attributes.names ∨ "class_uid" ∉ e.attributes.names)
    (models : Table Model) (data : Payload) :
    ∃ ps, m.checkBy V models (.obj data) = .error ps := by
  cases hprepare : m.prepare data with
  | error x => exact ⟨_, by rw [checkBy, hprepare]⟩
  | ok out =>
    obtain ⟨hcategory, hclass, -⟩ := filled_of_prepare hprepare
    have hrefused {key : String} (hfilled : key ∈ Payload.filledFields)
        (hkey : key ∉ e.attributes.names) (hout : key ∈ out.names) :=
      (checkBy_error_of_filled hV hm hkeyed hclosed hprepare hfilled hkey hout models).imp
        fun _ ↦ And.left
    rcases hlacks with hlacks | hlacks
    · exact hrefused (by decide) hlacks hcategory
    · exact hrefused (by decide) hlacks hclass

end EventModel

/-- What preparing a payload of attributes of an event class brings in. -/
structure EventModel.PreparesWithin (e : Entity) (m : EventModel) : Prop where
  /-- Members that are no attributes are identifiers that were filled in. -/
  names : ∀ data out, m.prepare data = .ok out → (∀ key ∈ data.names, key ∈ e.attributes.names) →
    ∀ key ∈ out.names, key ∈ e.attributes.names ∨ key ∈ Payload.filledFields
  /-- There are none exactly if what is filled in are attributes of the class. -/
  names_iff : ∀ data out, m.prepare data = .ok out →
    (∀ key ∈ data.names, key ∈ e.attributes.names) →
    ((∀ key ∈ out.names, key ∈ e.attributes.names) ↔ "category_uid" ∈ e.attributes.names ∧
      "class_uid" ∈ e.attributes.names ∧ (out.DerivesType → "type_uid" ∈ e.attributes.names))
  /-- A closed class refuses identifiers that are no attributes of it. -/
  refuses : e.closed = true → ∀ data out, m.prepare data = .ok out →
    ∀ key ∈ out.names, key ∈ Payload.filledFields → key ∉ e.attributes.names →
      ∀ V : Validator, V.Checks → ∀ models, ∃ ps, m.checkBy V models (.obj data) = .error ps ∧
        ⟨[.key key], .unknownMember⟩ ∈ ps
  /-- A closed class without the identifier of the category or of the class refuses every
  payload. -/
  refusesAll : e.closed = true → "category_uid" ∉ e.attributes.names ∨
    "class_uid" ∉ e.attributes.names →
    ∀ V : Validator, V.Checks → ∀ models data, ∃ ps, m.checkBy V models (.obj data) = .error ps

/-- Preparing brings in siblings and identifiers, and nothing else. -/
theorem EventModel.preparesWithin (hm : EventModel.ofEntity e = .ok m)
    (hkeyed : KeyedAttributes e.attributes) :
    PreparesWithin e m where
  names data out h hdata key hkey := by
    rcases mem_names_of_prepare hm hkeyed h hdata hkey with hmem | hfilled
    · exact .inl hmem
    · refine .inr ?_
      rcases hfilled with rfl | rfl | ⟨rfl, -⟩ <;> decide
  names_iff data out h hdata := by
    obtain ⟨hcategory, hclass, htype⟩ := filled_of_prepare h
    refine ⟨fun hall ↦
      ⟨hall _ hcategory, hall _ hclass, fun hderives ↦ hall _ (htype hderives)⟩, ?_⟩
    rintro ⟨hcategory, hclass, htype⟩ key hkey
    rcases mem_names_of_prepare hm hkeyed h hdata hkey with hmem | rfl | rfl | ⟨rfl, hderives⟩
    · exact hmem
    · exact hcategory
    · exact hclass
    · exact htype hderives
  refuses hclosed data out h key hkey hfilled hattributes V hV models :=
    checkBy_error_of_filled hV hm hkeyed hclosed h hfilled hattributes hkey models
  refusesAll hclosed hlacks V hV models data :=
    exists_checkBy_error hV hm hkeyed hclosed hlacks models data

/-- **What preparing a payload brings in.** A payload of attributes of an event class that was read
and resolved has only attributes as its members once it is prepared, and identifiers that are filled
in whether or not they are attributes. A closed class refuses those that are not. -/
theorem EventModel.preparesWithin_of_read (tree : FileTree) (path : Path) (c : Catalog)
    (s : Schema) (n : String) (e : Entity) (m : EventModel)
    (hread : (Catalog.read tree path).outcome.1 = .ok c)
    (hresolve : c.resolve.outcome.1 = .ok s) (he : s.events.get? n = some e)
    (hm : EventModel.ofEntity e = .ok m) :
    PreparesWithin e m :=
  preparesWithin hm ((Schema.keyedAttributes_of_read hread hresolve).2 n e he)

/-! ### An event class without identifiers -/

/-- The documents of an event class with a name as its only attribute. -/
def pingDocuments : Catalog.Documents where
  version := "\x7b\"version\": \"1.0.0\"\x7d"
  categories := "\x7b\"attributes\": \x7b\"system\": \x7b\"uid\": 1\x7d\x7d\x7d"
  dictionary := "\x7b\"attributes\": \x7b\"name\": \x7b\"type\": \"string_t\"\x7d\x7d\x7d"
  events := [("ping.json", "\x7b\"name\": \"ping\", \"category\": \"system\", \"uid\": 1, " ++
      "\"attributes\": \x7b\"name\": \x7b\x7d\x7d\x7d")]

/-- A schema tree with that event class. -/
def pingTree : FileTree := pingDocuments.tree

/-- The attributes of its dictionary. -/
def pingDictionary : Entries Json := [("name", .obj [("type", .str "string_t")])]

/-- Its event class. -/
def pingItem : Catalog.Item where
  path := ⟨"", ["events", "ping.json"]⟩
  name := "ping"
  members := [("name", .str "ping"), ("category", .str "system"), ("uid", .int 1),
    ("attributes", .obj [("name", .obj [])])]

/-- What the documents say. -/
def pingContents : Catalog.Contents :=
  ⟨.str "1.0.0", [("attributes", .obj [("system", .obj [("uid", .int 1)])])], pingDictionary, [],
    [], [pingItem], []⟩

theorem says_pingDocuments : Catalog.Says pingDocuments pingContents where
  version := ⟨_, .of_chars rfl rfl, rfl⟩
  categories := .of_chars rfl rfl
  dictionary := ⟨_, _, .of_chars rfl rfl, rfl, rfl, rfl⟩
  objects := .nil _ _
  events := ⟨by decide +kernel, by decide,
    .cons ⟨rfl, rfl, ⟨.of_chars (Catalog.append_eq_ofList rfl rfl) rfl, rfl, by decide⟩⟩ .nil⟩
  profiles := .nil _ _
  plain := by decide +kernel

/-- The class is closed, its model takes a name alone, and it has no pairs of siblings. -/
theorem catalog_pingContents : ∃ c s, pingContents.catalog = .ok c ∧ c.resolve.outcome.1 = .ok s ∧
    ∃ e, s.events.get? "ping" = some e ∧ e.closed = true ∧ e.attributes.names = ["name"] ∧
      ∃ m, EventModel.ofEntity e = .ok m ∧ m.pairs = [] := by
  have hget : pingDictionary.get? "name" = some (.obj [("type", .str "string_t")]) := rfl
  have htype (dict : Catalog.Dictionary) (place : String) :
      Catalog.readType dict place "name" [("type", .str "string_t")] = .ok ("string_t", .null) :=
    Catalog.readType_of_scalar rfl (by decide) (by decide +kernel)
  have henums : Catalog.readSharedEnums pingDictionary = .ok .empty :=
    Catalog.readSharedEnums_of_plain (by decide +kernel)
  have hitems : pingContents.events.map Catalog.Item.plain =
      [⟨"ping", pingItem.members, [("name", .obj [])]⟩] := rfl
  rw [Catalog.Contents.catalog, hitems]
  simp only [pingContents, henums, Catalog.readDefinitions, Catalog.readDefinition,
    Catalog.readAttributes, Catalog.readAttribute, hget, Json.merge_empty,
    Catalog.ofShape_membersFor, bind, Except.bind, htype]
  exact ⟨_, _, rfl, rfl, _, rfl, rfl, rfl, _, rfl, rfl⟩

/-- The tree of pings is read, and its event class is closed and has no siblings. -/
theorem read_pingTree : ∃ c s, (Catalog.read pingTree ⟨"", []⟩).outcome.1 = .ok c ∧
    c.resolve.outcome.1 = .ok s ∧ ∃ e, s.events.get? "ping" = some e ∧ e.closed = true ∧
      e.attributes.names = ["name"] ∧ ∃ m, EventModel.ofEntity e = .ok m ∧ m.pairs = [] := by
  obtain ⟨c, s, hcatalog, hresolve, hping⟩ := catalog_pingContents
  exact ⟨c, s, (says_pingDocuments.outcome_read rfl).trans hcatalog, hresolve, hping⟩

/-- The class has neither the identifier of its category nor that of its own among its attributes,
so it refuses every payload. -/
theorem EventModel.preparesWithin_of_read_pingTree :
    ∃ c s, (Catalog.read pingTree ⟨"", []⟩).outcome.1 = .ok c ∧
    c.resolve.outcome.1 = .ok s ∧ ∃ e m, s.events.get? "ping" = some e ∧
      EventModel.ofEntity e = .ok m ∧ ∀ data, ∃ ps, m.check .empty (.obj data) = .error ps := by
  obtain ⟨c, s, hread, hresolve, e, he, hclosed, hnames, m, hm, -⟩ := read_pingTree
  refine ⟨c, s, hread, hresolve, e, m, he, hm, ?_⟩
  refine (EventModel.preparesWithin_of_read pingTree ⟨"", []⟩ c s "ping" e m hread hresolve he
    hm).refusesAll hclosed (.inl ?_) Payload.validator Payload.checks_validator .empty
  rw [hnames]
  decide

/-- A payload of attributes alone can have other members once it is prepared. -/
theorem EventModel.prepare_pingTree : ∃ c s, (Catalog.read pingTree ⟨"", []⟩).outcome.1 = .ok c ∧
    c.resolve.outcome.1 = .ok s ∧ ∃ e m, s.events.get? "ping" = some e ∧
      EventModel.ofEntity e = .ok m ∧
      ∃ data out, (∀ key ∈ Entries.names data, key ∈ e.attributes.names) ∧
        m.prepare data = .ok out ∧ ¬ ∀ key ∈ out.names, key ∈ e.attributes.names := by
  obtain ⟨c, s, hread, hresolve, e, he, -, hnames, m, hm, hpairs⟩ := read_pingTree
  have hprepare :
      m.prepare [("name", .str "x")] = .ok (Payload.prefill m.config [("name", .str "x")]) := by
    rw [EventModel.prepare, hpairs]
    rfl
  refine ⟨c, s, hread, hresolve, e, m, he, hm, [("name", .str "x")], _, ?_, hprepare, fun hall ↦ ?_⟩
  · rw [hnames]
    decide
  · have hmem := hall _ (filled_of_prepare hprepare).1
    rw [hnames] at hmem
    exact absurd hmem (by decide)

end EventSchema
