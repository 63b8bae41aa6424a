import EventSchema.Proofs.Catalog.Ancestry
import EventSchema.Proofs.Catalog.Documents
import EventSchema.Proofs.Catalog.InheritedDetails
import EventSchema.Proofs.Json.Merging

/-!
# Companions of timestamps

If a schema knows dates and times, reading gives every timestamp of a definition a companion, unless
the definition declares an attribute of that name itself (`hasCompanions_addCompanions`). Companions
are made one definition at a time, before anything is inherited. Still an entity has a companion
beside each of its timestamps: the last definition of a timestamp is one as well, and has a
companion (`exists_companion`). Where no definition declares the companion all definitions of it
were made, the last beside the last definition of the timestamp (`definers_companion`), so it is
what a companion of the inherited timestamp would be (`companions_of_read`).
-/

namespace EventSchema

open Attribute

/-- Whether an attribute is a timestamp. -/
def Attribute.isTimestamp (a : Attribute) : Bool := a.scalarType = "timestamp_t"

/-- An attribute is what a companion of another is: an optional moment of the datetime profile, an
array if the other is. -/
structure Attribute.CompanionOf (x y : Attribute) : Prop where
  scalarType : y.scalarType = Catalog.datetimeType
  requirement : y.requirement = .str optionalWord
  profile : y.profile = .str Catalog.datetimeProfile
  isArray : y.isArray = x.isArray

namespace Catalog

variable {dict : Dictionary} {kind : EntityKind} {place key n : String}
  {tree : FileTree} {schema : Path} {t read : Table Attribute} {a b x y : Attribute}
  {d : Definition} {item : ResolvedItem} {items : List ResolvedItem} {chain : List Definition}

/-! ### Companions of one definition -/

theorem isTimestamp_companion (a : Attribute) : (companion a).isTimestamp = false :=
  decide_eq_false (by decide : datetimeType ≠ "timestamp_t")

/-- Companions are added under names that are free, each made for the first timestamp of this
name. -/
theorem get?_addCompanions (t : Table Attribute) (key : String) : (addCompanions t).get? key =
    (t.get? key).or
      (((t.values.filter isTimestamp).find? fun a ↦ (companion a).name = key).map companion) := by
  have hfold (timestamps : List Attribute) (t : Table Attribute) :
      (timestamps.foldl (fun t a ↦ t.putNew (companion a).name (companion a)) t).get? key =
        (t.get? key).or ((timestamps.find? fun a ↦ (companion a).name = key).map companion) := by
    induction timestamps generalizing t with
    | nil => exact (Option.or_none).symm
    | cons a timestamps ih =>
      rw [List.foldl_cons, ih, Table.get?_putNew, Option.or_assoc, List.find?_cons]
      by_cases hkey : (companion a).name = key <;> simp [hkey]
  exact hfold _ t

/-- Adding companions leaves the attributes that are there. -/
theorem get?_addCompanions_of_some (h : t.get? key = some a) :
    (addCompanions t).get? key = some a := by
  rw [get?_addCompanions, h, Option.some_or]

/-- Adding companions adds no timestamps. -/
theorem filter_addCompanions (t : Table Attribute) (key : String) :
    ((addCompanions t).get? key).filter isTimestamp = (t.get? key).filter isTimestamp := by
  rw [get?_addCompanions]
  cases t.get? key with
  | some a => rw [Option.some_or]
  | none =>
    rw [Option.none_or]
    cases (t.values.filter isTimestamp).find? fun a ↦ (companion a).name = key with
    | none => rfl
    | some a => exact Option.filter_some_neg (by rw [isTimestamp_companion])

/-- Where the name of its companion is free, a timestamp gets one. -/
theorem get?_addCompanions_of_none (ht : KeyedAttributes t) (h : t.get? (key ++ "_dt") = none) :
    (addCompanions t).get? (key ++ "_dt") = ((t.get? key).filter isTimestamp).map companion := by
  have hname (a : Attribute) : (companion a).name = key ++ "_dt" ↔ a.name = key :=
    String.append_left_inj _
  -- timestamps stand under their own names, so there is one of that name at most
  have hunique (a : Attribute) (ha : a ∈ t.values) : a.name = key ↔ t.get? key = some a := by
    obtain ⟨m, hm⟩ := Table.mem_values_iff.1 ha
    refine ⟨fun hkey ↦ ?_, ht key a⟩
    rwa [← hkey, ht m a hm]
  rw [get?_addCompanions, h, Option.none_or]
  congr 1
  cases hfind : (t.values.filter isTimestamp).find? fun a ↦ (companion a).name = key ++ "_dt" with
  | some a =>
    obtain ⟨hmem, htimestamp⟩ := List.mem_filter.1 (List.mem_of_find?_eq_some hfind)
    have hkey : decide ((companion a).name = key ++ "_dt") = true :=
      List.find?_some (p := fun a ↦ decide ((companion a).name = key ++ "_dt")) hfind
    rw [(hunique a hmem).1 ((hname a).1 (of_decide_eq_true hkey)),
      Option.filter_some_pos htimestamp]
  | none =>
    refine (Option.filter_eq_none_iff.2 fun a ha htimestamp ↦ ?_).symm
    have hmem : a ∈ t.values := Table.mem_values_iff.2 ⟨key, ha⟩
    have hother := List.find?_eq_none.1 hfind a (List.mem_filter.2 ⟨hmem, htimestamp⟩)
    exact hother (decide_eq_true ((hname a).2 ((hunique a hmem).2 ha)))

/-- The attributes of a definition have companions beside their timestamps, made for all but the
names that were declared. -/
structure HasCompanions (declared : List String) (t : Table Attribute) : Prop where
  present : ∀ key a, t.get? key = some a → a.isTimestamp = true →
    ∃ b, t.get? (key ++ "_dt") = some b
  made : ∀ key, key ++ "_dt" ∉ declared →
    t.get? (key ++ "_dt") = ((t.get? key).filter isTimestamp).map companion

/-- Attributes have companions after these were added. -/
theorem hasCompanions_addCompanions (ht : KeyedAttributes t) :
    HasCompanions t.names (addCompanions t) where
  present key a ha htimestamp := by
    cases hdeclared : t.get? (key ++ "_dt") with
    | some b => exact ⟨b, get?_addCompanions_of_some hdeclared⟩
    | none =>
      rw [get?_addCompanions_of_none ht hdeclared, ← filter_addCompanions, ha,
        Option.filter_some_pos htimestamp]
      exact ⟨_, rfl⟩
  made key hkey := by
    have hnone : t.get? (key ++ "_dt") = none := Option.eq_none_iff_forall_ne_some.2 fun b hb ↦
      hkey (Table.mem_names_iff.2 ⟨b, hb⟩)
    rw [get?_addCompanions_of_none ht hnone, filter_addCompanions]

/-! ### Companions along a lineage -/

theorem definers_concat (chain : List Definition) (d : Definition) (key : String) :
    definers (chain ++ [d]) key = definers chain key ++ (d.attributes.get? key).toList := by
  rw [definers, List.filterMap_append, ← definers]
  cases h : d.attributes.get? key <;> simp [h]

/-- A refined attribute is a timestamp if the last one that refines it is. -/
theorem isTimestamp_getLastD {first : Attribute} {rest : List Attribute}
    (h : x = rest.foldl refine first) :
    x.isTimestamp = (rest.getLastD first).isTimestamp := by
  rw [isTimestamp, h, (inherits_foldl_refine first rest).scalarType, ← isTimestamp]

/-- An entity has a companion beside each of its timestamps. -/
theorem exists_companion (hchain : ∀ d ∈ chain, ∃ declared, HasCompanions declared d.attributes)
    (hx : (lineageAttributes chain).get? key = some x) (htimestamp : x.isTimestamp = true) :
    ∃ y, (lineageAttributes chain).get? (key ++ "_dt") = some y := by
  obtain ⟨first, rest, hdefiners, hrefine⟩ := exists_definers_of_get? hx
  have hlast : rest.getLastD first ∈ definers chain key := hdefiners ▸ List.getLastD_mem_cons
  obtain ⟨d, hd, hget⟩ := List.mem_filterMap.1 hlast
  obtain ⟨declared, hd'⟩ := hchain d hd
  obtain ⟨b, hb⟩ := hd'.present key _ hget (isTimestamp_getLastD hrefine ▸ htimestamp)
  have hmem : b ∈ definers chain (key ++ "_dt") := List.mem_filterMap.2 ⟨d, hd, hb⟩
  rw [get?_lineageAttributes]
  cases hall : definers chain (key ++ "_dt") with
  | nil => exact absurd (hall ▸ hmem) List.not_mem_nil
  | cons first rest => exact ⟨_, rfl⟩

/-- Where no definition of a lineage declares a companion, its definitions are those made beside
timestamps. -/
theorem definers_companion
    (h : ∀ d ∈ chain, d.attributes.get? (key ++ "_dt") =
      ((d.attributes.get? key).filter isTimestamp).map companion) :
    definers chain (key ++ "_dt") = ((definers chain key).filter isTimestamp).map companion := by
  rw [definers, List.filterMap_congr h, definers, List.filter_filterMap, List.map_filterMap]

/-- Where each definition of a timestamp comes with a companion, these come to a companion. -/
theorem companionOf_of_definers (hx : (lineageAttributes chain).get? key = some x)
    (htimestamp : x.isTimestamp = true)
    (hy : (lineageAttributes chain).get? (key ++ "_dt") = some y)
    (h : definers chain (key ++ "_dt") = ((definers chain key).filter isTimestamp).map companion) :
    x.CompanionOf y := by
  obtain ⟨first, rest, hdefiners, hrefine⟩ := exists_definers_of_get? hx
  obtain ⟨first', rest', hdefiners', rfl⟩ := exists_definers_of_get? hy
  have hmade : first' :: rest' = ((first :: rest).filter isTimestamp).map companion := by
    rw [← hdefiners', h, hdefiners]
  -- the last definition of the timestamp is one, and the last companion was made beside it
  have hlast : rest'.getLastD first' = companion (rest.getLastD first) := by
    have hgetLast (a : Attribute) (as : List Attribute) :
        (a :: as).getLast? = some (as.getLastD a) := by
      rw [List.getLast?_cons, List.getLastD_eq_getLast?]
    obtain ⟨earlier, hearlier⟩ := List.getLast?_eq_some_iff.1 (hgetLast first rest)
    have hlast : (rest.getLastD first).isTimestamp = true :=
      isTimestamp_getLastD hrefine ▸ htimestamp
    refine Option.some.inj ((hgetLast first' rest').symm.trans ?_)
    rw [hmade, hearlier, List.filter_append, List.filter_cons_of_pos hlast, List.filter_nil,
      List.map_append, List.map_cons, List.map_nil, List.getLast?_concat]
  have hcompanion : ∀ b ∈ first' :: rest', ∃ a, b = companion a := by
    intro b hb
    obtain ⟨a, -, rfl⟩ := List.mem_map.1 (hmade ▸ hb)
    exact ⟨a, rfl⟩
  have hinherits := inherits_foldl_refine first rest
  have hinherits' := inherits_foldl_refine first' rest'
  obtain ⟨a, ha⟩ := hcompanion _ (nearest_mem (gives "requirement") first' rest')
  obtain ⟨a', ha'⟩ := hcompanion _ (nearest_mem (·.profile.isGiven) first' rest')
  refine ⟨?_, ?_, ?_, ?_⟩
  · rw [hinherits'.scalarType, hlast]
    rfl
  · rw [hinherits'.requirement, ha]
    rfl
  · rw [hinherits'.profile, ha']
    rfl
  · rw [hinherits'.isArray, hlast, hrefine, hinherits.isArray]
    rfl

/-! ### Definitions and their items -/

/-- Attributes are read under the names that are given, beside those that are there. -/
theorem mem_names_readAttributes {values : List (String × Json)}
    (h : readAttributes dict place read values = .ok t) :
    n ∈ t.names ↔ n ∈ read.names ∨ n ∈ Entries.names values := by
  induction values generalizing read with
  | nil =>
    cases h
    exact (or_iff_left List.not_mem_nil).symm
  | cons e rest ih =>
    obtain ⟨a, -, h⟩ := bind_eq_ok h
    rw [ih h, Table.mem_names_put, Entries.names, Entries.names, List.map_cons, List.mem_cons,
      or_assoc]

/-- Every attribute was read from a value that was given under its name. -/
theorem exists_value_of_readAttributes {values : List (String × Json)}
    (h : readAttributes dict place read values = .ok t) (hb : t.get? key = some b) :
    read.get? key = some b ∨ ∃ value, (key, value) ∈ values ∧
    readAttribute dict place key value = .ok b := by
  induction values generalizing read with
  | nil =>
    cases h
    exact .inl hb
  | cons e rest ih =>
    obtain ⟨a, ha, h⟩ := bind_eq_ok h
    rcases ih h with hread | ⟨value, hvalue, hb⟩
    · rw [Table.get?_put] at hread
      split at hread
      · next hkey =>
        cases hread
        exact .inr ⟨e.2, hkey ▸ List.mem_cons_self, hkey ▸ ha⟩
      · exact .inl hread
    · exact .inr ⟨value, List.mem_cons_of_mem e hvalue, hb⟩

/-- With the profile and the type of moments, definitions are read with companions. -/
theorem hasCompanions_of_readDefinition (hdatetime : dict.hasDatetime = true)
    (h : readDefinition dict kind item = .ok d) :
    HasCompanions (Entries.names item.attributes) d.attributes := by
  obtain ⟨place, read, hread, hd⟩ := (readDefinition_ok h).attributes
  have hnames (n : String) : n ∈ read.names ↔ n ∈ Entries.names item.attributes := by
    rw [mem_names_readAttributes hread]
    exact or_iff_right List.not_mem_nil
  have hall := hasCompanions_addCompanions (readAttributes_keyed keyedAttributes_empty hread)
  rw [hd, if_pos hdatetime]
  exact ⟨hall.present, fun key hkey ↦ hall.made key fun hmem ↦ hkey ((hnames _).1 hmem)⟩

/-- An attribute that an item declares is read from what it says of it. -/
theorem exists_read_of_readDefinition (h : readDefinition dict kind item = .ok d)
    (hkey : key ∈ Entries.names item.attributes) : ∃ place value b, (key, value) ∈ item.attributes ∧
      readAttribute dict place key value = .ok b ∧ d.attributes.get? key = some b := by
  obtain ⟨place, read, hread, hd⟩ := (readDefinition_ok h).attributes
  obtain ⟨b, hb⟩ := Table.mem_names_iff.1 ((mem_names_readAttributes hread).2 (.inr hkey))
  obtain ⟨value, hvalue, hattribute⟩ :=
    (exists_value_of_readAttributes hread hb).resolve_left (by simp)
  refine ⟨place, value, b, hvalue, hattribute, ?_⟩
  rw [hd]
  split
  · exact get?_addCompanions_of_some hb
  · exact hb

/-! ### Schemas that know dates and times -/

/-- A schema tree has the profile and the type of moments as text. -/
structure DefinesDatetime (tree : FileTree) (schema : Path) : Prop where
  profile : ∃ profiles, readItems tree schema "profiles" = .ok profiles ∧ ∃ item ∈ profiles,
    item.name = datetimeProfile
  type :
    ∃ dictionary parts types, readObject tree (schema.child "dictionary.json") = .ok dictionary ∧
    partOf dictionary "types" "dictionary types" = .ok parts ∧
    partOf parts "attributes" "dictionary types attributes" = .ok types ∧
    types.has datetimeType = true

/-- A tree that has the profile and the type of moments is read as such. -/
theorem ReadFrom.hasDatetime {c : Catalog} {objects events : List ResolvedItem}
    (h : ReadFrom tree schema dict objects events c) (hdatetime : DefinesDatetime tree schema) :
    dict.hasDatetime = true := by
  obtain ⟨profiles, -, -, -, hprofiles, -, -, -, hread⟩ := h.items
  obtain ⟨dictionary, parts, hdictionary, -, hparts, htypes⟩ := h.dictionary
  obtain ⟨profiles', hprofiles', item, hitem, hname⟩ := hdatetime.profile
  obtain ⟨dictionary', parts', types', hdictionary', hparts', htypes', hhas⟩ := hdatetime.type
  obtain rfl := Except.ok.inj (hprofiles.symm.trans hprofiles')
  obtain rfl := Except.ok.inj (hdictionary.symm.trans hdictionary')
  obtain rfl := Except.ok.inj (hparts.symm.trans hparts')
  obtain rfl := Except.ok.inj (htypes.symm.trans htypes')
  have hany : (profiles.any fun item ↦ item.name = datetimeProfile) = true :=
    List.any_eq_true.2 ⟨item, hitem, decide_eq_true hname⟩
  rw [readDatetime, hany, hhas] at hread
  exact (Except.ok.inj hread).symm

/-- An item of a name declares an attribute, itself or through a file that it includes. -/
def Declares (items : List ResolvedItem) (n key : String) : Prop :=
  ∃ item ∈ items, item.name = n ∧ key ∈ Entries.names item.attributes

/-- The companions of entities. Each timestamp has one, which is as it is made for that timestamp
unless some member of the lineage declares it. What an item declares is its own: the definition has
it as it was read, and the entity what refining inherited definitions with it comes to. -/
structure KeepsCompanions (dict : Dictionary) (items : List ResolvedItem)
    (definitions : Table Definition) (entities : Table Entity) : Prop where
  companion : ∀ n e key x, entities.get? n = some e → e.attributes.get? key = some x →
    x.isTimestamp = true →
    ∃ y, e.attributes.get? (key ++ "_dt") = some y ∧
      ((∀ k m, ancestorAt definitions n k = some m → ¬ Declares items m (key ++ "_dt")) →
        x.CompanionOf y)
  declared : ∀ item ∈ items, ∀ key ∈ Entries.names item.attributes, ∃ place value b d,
    (key, value) ∈ item.attributes ∧ readAttribute dict place key value = .ok b ∧
      definitions.get? item.name = some d ∧ d.attributes.get? key = some b ∧
        ∀ e, entities.get? item.name = some e →
        ∃ inherited, e.attributes.get? key = joined (inherited ++ [b])

end Catalog

/-- The members of a lineage are the definitions that the walk from its name comes to. -/
theorem Descends.exists_ancestorAt {definitions : Table Definition} {n : String}
    {ancestors : List Definition} {d m : Definition} (h : Descends definitions n ancestors d)
    (hm : m ∈ ancestors ++ [d]) :
    ∃ k name, ancestorAt definitions n k = some name ∧ definitions.get? name = some m := by
  induction h with
  | root hd _ =>
    obtain rfl := List.mem_singleton.1 hm
    exact ⟨0, _, rfl, hd⟩
  | @child n parent d _ _ hd hparent _ ih =>
    rcases List.mem_append.1 hm with hm | hm
    · obtain ⟨k, name, hk, hname⟩ := ih hm
      refine ⟨1 + k, name, ?_, hname⟩
      have hone : ancestorAt definitions n 1 = some parent := by
        rw [ancestorAt_succ (k := 0) rfl, hd, Option.bind_some, hparent]
      rw [ancestorAt_add, hone, Option.bind_some, hk]
    · obtain rfl := List.mem_singleton.1 hm
      exact ⟨0, _, rfl, hd⟩

namespace Catalog

variable {dict : Dictionary} {kind : EntityKind} {tree : FileTree} {schema : Path}
  {items : List ResolvedItem} {definitions : Table Definition} {categories : Table Uid}
  {entities : Table Entity}

/-- The entities of definitions that were read keep their companions. -/
theorem keepsCompanions_of_read (hdatetime : dict.hasDatetime = true)
    (hitems : (items.map (·.name)).Nodup)
    (hread : readDefinitions dict kind .empty items = .ok definitions)
    (hentities : HoldsEntities definitions categories definitions.names entities) :
    KeepsCompanions dict items definitions entities := by
  refine ⟨fun n e key x he hx htimestamp ↦ ?_, fun item hmem key hkey ↦ ?_⟩
  · obtain ⟨chain, hchain, hattributes⟩ := attributes_of_ofName ((hentities.get?_iff n e).1 he).2
    obtain ⟨ancestors, d, hdescends, rfl⟩ := descends_of_lineage hchain
    rw [hattributes] at hx ⊢
    have hmember :
        ∀ m ∈ ancestors ++ [d], ∃ item ∈ items, (∃ k, ancestorAt definitions n k = some item.name) ∧
        HasCompanions (Entries.names item.attributes) m.attributes := by
      intro m hm
      obtain ⟨k, name, hk, hget⟩ := hdescends.exists_ancestorAt hm
      obtain ⟨item, hmem, rfl, hdefinition⟩ :=
        (exists_item_of_readDefinitions hread hget).resolve_left (by simp)
      exact ⟨item, hmem, ⟨k, hk⟩, hasCompanions_of_readDefinition hdatetime hdefinition⟩
    have hsome : ∀ m ∈ ancestors ++ [d], ∃ declared, HasCompanions declared m.attributes := by
      intro m hm
      obtain ⟨item, -, -, hhas⟩ := hmember m hm
      exact ⟨_, hhas⟩
    obtain ⟨y, hy⟩ := exists_companion hsome hx htimestamp
    refine ⟨y, hy,
      fun hundeclared ↦ companionOf_of_definers hx htimestamp hy (definers_companion fun m hm ↦ ?_)⟩
    obtain ⟨item, hmem, ⟨k, hk⟩, hhas⟩ := hmember m hm
    exact hhas.made key fun hkey ↦ hundeclared k item.name hk ⟨item, hmem, rfl, hkey⟩
  · obtain ⟨d, hd, hget⟩ := get?_readDefinitions hitems hread hmem
    obtain ⟨place, value, b, hvalue, hb, hattribute⟩ := exists_read_of_readDefinition hd hkey
    refine ⟨place, value, b, d, hvalue, hb, hget, hattribute, fun e he ↦ ?_⟩
    obtain ⟨chain, hchain, hattributes⟩ := attributes_of_ofName ((hentities.get?_iff _ e).1 he).2
    obtain ⟨ancestors, d', hdescends, rfl⟩ := descends_of_lineage hchain
    obtain rfl := Option.some.inj (hget.symm.trans hdescends.get?)
    refine ⟨definers ancestors key, ?_⟩
    rw [hattributes, get?_lineageAttributes, definers_concat, hattribute, Option.toList_some]

/-- **Companions.** If a schema tree has the profile and the type of moments as text, then in the
schema that it is read and worked out to every timestamp of every entity has a companion, made for
it unless a member of the lineage declares one, and what an item declares is kept. -/
theorem companions_of_read (tree : FileTree) (schema : Path) (c : Catalog) (s : Schema)
    (hdatetime : DefinesDatetime tree schema) (hread : (read tree schema).outcome.1 = .ok c)
    (hresolve : c.resolve.outcome.1 = .ok s) :
    ∃ dict objects events, ReadFrom tree schema dict objects events c ∧
      KeepsCompanions dict objects c.objects s.objects ∧
      KeepsCompanions dict events c.events s.events := by
  obtain ⟨dict, objects, events, hfrom⟩ := readFrom_of_read hread
  obtain ⟨hobjects, hevents⟩ := hfrom.nodup
  obtain ⟨hobjectEntities, heventEntities⟩ := entities_of_resolve hresolve
  have hhas := hfrom.hasDatetime hdatetime
  exact ⟨dict, objects, events, hfrom,
    keepsCompanions_of_read hhas hobjects hfrom.objects hobjectEntities,
    keepsCompanions_of_read hhas hevents hfrom.events heventEntities⟩

/-! ### Alarms are clocks -/

/-- The documents of clocks, which tell a time, and of alarms, clocks that tell several. -/
def clockDocuments : Documents where
  version := "\x7b\"version\": \"1.0.0\"\x7d"
  categories := "\x7b\x7d"
  dictionary := "\x7b\"attributes\": \x7b\"time\": \x7b\"type\": \"timestamp_t\"\x7d\x7d, " ++
      "\"types\": \x7b\"attributes\": \x7b\"datetime_t\": \x7b\x7d\x7d\x7d\x7d"
  objects := [
    ("alarm.json", "\x7b\"name\": \"alarm\", \"extends\": \"clock\", " ++
      "\"attributes\": \x7b\"time\": \x7b\"is_array\": true\x7d\x7d\x7d"),
    ("clock.json", "\x7b\"name\": \"clock\", \"attributes\": \x7b\"time\": \x7b\x7d\x7d\x7d")]
  profiles := [("datetime.json", "\x7b\"name\": \"datetime\"\x7d")]

/-- A schema tree of clocks and alarms that knows dates and times. -/
def clockTree : FileTree := clockDocuments.tree

/-- The attributes of its dictionary. -/
def clockDictionary : Entries Json := [("time", .obj [("type", .str "timestamp_t")])]

/-- The types of its dictionary. -/
def clockTypes : Entries Json := [("datetime_t", .obj [])]

/-- The attributes of its clocks. -/
def clockAttributes : Entries Json := [("time", .obj [])]

/-- The attributes of its alarms. -/
def alarmAttributes : Entries Json := [("time", .obj [("is_array", .bool true)])]

/-- Its clocks. -/
def clockItem : Item where
  path := ⟨"", ["objects", "clock.json"]⟩
  name := "clock"
  members := [("name", .str "clock"), ("attributes", .obj clockAttributes)]

/-- Its alarms. -/
def alarmItem : Item where
  path := ⟨"", ["objects", "alarm.json"]⟩
  name := "alarm"
  members :=
    [("name", .str "alarm"), ("extends", .str "clock"), ("attributes", .obj alarmAttributes)]

/-- Its profile. -/
def datetimeItem : Item where
  path := ⟨"", ["profiles", "datetime.json"]⟩
  name := "datetime"
  members := [("name", .str "datetime")]

/-- What the documents say. -/
def clockContents : Contents :=
  ⟨.str "1.0.0", [], clockDictionary, clockTypes, [alarmItem, clockItem], [], [datetimeItem]⟩

theorem says_clockDocuments : Says clockDocuments clockContents where
  version := ⟨_, .of_chars rfl rfl, rfl⟩
  categories := .of_chars rfl rfl
  dictionary := ⟨_, _, .of_chars (append_eq_ofList rfl rfl) rfl, rfl, rfl, rfl⟩
  objects := ⟨by decide +kernel, by decide,
    .cons ⟨rfl, rfl, ⟨.of_chars (append_eq_ofList rfl rfl) rfl, rfl, by decide⟩⟩
      (.cons ⟨rfl, rfl, ⟨.of_chars rfl rfl, rfl, by decide⟩⟩ .nil)⟩
  events := .nil _ _
  profiles := ⟨by decide +kernel, by decide,
    .cons ⟨rfl, rfl, ⟨.of_chars rfl rfl, rfl, by decide⟩⟩ .nil⟩
  plain := by decide +kernel

/-- The tree of clocks has the profile and the type of moments. -/
theorem definesDatetime_clockTree : DefinesDatetime clockTree ⟨"", []⟩ where
  profile := ⟨_, says_clockDocuments.items.2.2, datetimeItem, List.mem_singleton_self _, rfl⟩
  type := by
    obtain ⟨members, parts, hread, -, hparts, htypes⟩ := says_clockDocuments.readObject_dictionary
    exact ⟨members, parts, _, hread, hparts, htypes, by decide +kernel⟩

/-- The objects of the tree with their includes resolved. -/
def clockObjects : List ResolvedItem :=
  [⟨"alarm", alarmItem.members, alarmAttributes⟩, ⟨"clock", clockItem.members, clockAttributes⟩]

theorem readDatetime_clockContents :
    readDatetime clockContents.profiles clockContents.types = .ok true := by
  have hprofile : (clockContents.profiles.any fun item ↦ item.name = datetimeProfile) = true := by
    decide +kernel
  have htype : clockContents.types.has datetimeType = true := by decide +kernel
  rw [readDatetime, hprofile, htype]

/-- Alarms have an array of times. -/
theorem catalog_clockContents : ∃ c s, clockContents.catalog = .ok c ∧ c.resolve.outcome.1 = .ok s ∧
    ∃ e x, s.objects.get? "alarm" = some e ∧ e.attributes.get? "time" = some x ∧
      x.isTimestamp = true ∧ x.isArray = true := by
  have hget : clockDictionary.get? "time" = some (.obj [("type", .str "timestamp_t")]) := rfl
  have halarm : Json.merge (.obj [("type", .str "timestamp_t")]) (.obj [("is_array", .bool true)]) =
      .obj [("type", .str "timestamp_t"), ("is_array", .bool true)] := by
    simp [Json.merge, Json.mergeMembers, Entries.get?, Entries.put]
  have htype (dict : Dictionary) (place : String) (rest : Entries Json) :
      readType dict place "time" (("type", .str "timestamp_t") :: rest) =
        .ok ("timestamp_t", .null) :=
    readType_of_scalar rfl (by decide) (by decide +kernel)
  have henums : readSharedEnums clockDictionary = .ok .empty :=
    readSharedEnums_of_plain (by decide +kernel)
  have hitems : clockContents.objects.map Item.plain = clockObjects := rfl
  rw [Contents.catalog, hitems, readDatetime_clockContents]
  simp only [clockContents, henums, readDefinitions, readDefinition, readAttributes, clockObjects,
    clockAttributes, alarmAttributes, readAttribute, hget, Json.merge_empty, halarm,
    ofShape_membersFor, bind, Except.bind, htype]
  exact ⟨_, _, rfl, rfl, _, _, rfl, rfl, rfl, rfl⟩

/-- The tree of clocks is read, and the time of alarms is an array of timestamps. -/
theorem read_clockTree : ∃ c s, (read clockTree ⟨"", []⟩).outcome.1 = .ok c ∧
    c.resolve.outcome.1 = .ok s ∧
    ∃ e x, s.objects.get? "alarm" = some e ∧ e.attributes.get? "time" = some x ∧
      x.isTimestamp = true ∧ x.isArray = true := by
  obtain ⟨c, s, hcatalog, hresolve, halarm⟩ := catalog_clockContents
  exact ⟨c, s, (says_clockDocuments.outcome_read readDatetime_clockContents).trans hcatalog,
    hresolve, halarm⟩

/-- The times of an alarm have a companion, which is an array as they are. -/
theorem companions_of_read_clockTree : ∃ c s, DefinesDatetime clockTree ⟨"", []⟩ ∧
    (read clockTree ⟨"", []⟩).outcome.1 = .ok c ∧ c.resolve.outcome.1 = .ok s ∧ ∃ e x y,
      s.objects.get? "alarm" = some e ∧ e.attributes.get? "time" = some x ∧ x.isTimestamp = true ∧
        e.attributes.get? "time_dt" = some y ∧ x.CompanionOf y ∧ y.isArray = true := by
  obtain ⟨c, s, hread, hresolve, e, x, he, hx, htimestamp, harray⟩ := read_clockTree
  obtain ⟨dict, objects, events, hfrom, hobjects, -⟩ :=
    companions_of_read clockTree ⟨"", []⟩ c s definesDatetime_clockTree hread hresolve
  obtain ⟨y, hy, hcompanion⟩ := hobjects.companion "alarm" e "time" x he hx htimestamp
  obtain rfl : objects = clockObjects := by
    obtain ⟨hobjectItems, heventItems, hprofiles⟩ := says_clockDocuments.items
    exact (hfrom.items_eq hprofiles heventItems hobjectItems fun j ↦
      congrArg Prod.fst (says_clockDocuments.resolveIncludes_eq j)).1
  have hundeclared (m : String) : ¬ Declares clockObjects m "time_dt" := by
    rintro ⟨item, hitem, -, hkey⟩
    have hall : clockObjects.all (fun item ↦ !Entries.has item.attributes "time_dt") = true := by
      decide +kernel
    simpa [Entries.has_iff.2 hkey] using List.all_eq_true.1 hall item hitem
  have hof := hcompanion fun k m _ ↦ hundeclared m
  exact ⟨c, s, definesDatetime_clockTree, hread, hresolve, e, x, y, he, hx, htimestamp, hy, hof,
    hof.isArray.trans harray⟩

end Catalog

end EventSchema
