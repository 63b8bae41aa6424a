import EventSchema.Proofs.Catalog.Keys
import EventSchema.Proofs.Catalog.Regrouping

/-!
# What an entity inherits

Every detail of an inherited attribute follows a rule of its own: some belong to the last
definition, some to the nearest that gives them, and enumerations and the details that were given
are united (`Attribute.Inherits`). An entity takes its attributes from its whole lineage in this
way, and its category from the nearest member that has one (`Entity.Inherits`).

Entities that were worked out before are looked up, not worked out again. They are the same
whichever names were asked for (`WorkedOut.exists_holdsEntities`), so the rules hold of every answer
(`inherits_of_resolve`).
-/

namespace EventSchema

/-! ### Unions of enumerations -/

namespace EnumValue

variable {lists : List (List EnumValue)} {vs : Option (List EnumValue)}

/-- An enumeration is the union of some lists, root first. Of equal numbers the last value counts,
and values that come from several lists ascend. One list alone is taken over as it stands, and there
is none without a list. -/
structure IsUnion (lists : List (List EnumValue)) (vs : Option (List EnumValue)) : Prop where
  eq_none_iff : vs = none ↔ lists = []
  alone : ∀ us, lists = [us] → vs = some us
  latest : ∀ n, latest n (vs.getD []) = latest n lists.flatten
  ascending : 2 ≤ lists.length → Ascending (vs.getD [])

theorem isUnion_toList (vs : Option (List EnumValue)) : IsUnion vs.toList vs where
  eq_none_iff := by cases vs <;> simp
  alone := fun us h ↦ by cases vs <;> simp_all
  latest := fun n ↦ by cases vs <;> simp
  ascending := fun h ↦ absurd h (by cases vs <;> simp)

theorem IsUnion.union (h : IsUnion lists vs) (ws : Option (List EnumValue)) :
    IsUnion (lists ++ ws.toList) (EnumValue.union vs ws) := by
  cases ws with
  | none =>
    have hunion : EnumValue.union vs none = vs := by cases vs <;> rfl
    rwa [Option.toList_none, List.append_nil, hunion]
  | some ws =>
    cases vs with
    | none =>
      rw [h.eq_none_iff.1 rfl]
      exact isUnion_toList (some ws)
    | some vs =>
      have hne : lists ≠ [] := fun hlists ↦ nomatch h.eq_none_iff.2 hlists
      refine ⟨⟨nofun, fun hnil ↦ absurd (List.append_eq_nil_iff.1 hnil).1 hne⟩, fun us hus ↦ ?_,
        fun n ↦ ?_, fun _ ↦ ascending_byNumber _⟩
      · have hlength := congrArg List.length hus
        rw [Option.toList_some, List.length_append, List.length_singleton,
          List.length_singleton] at hlength
        exact absurd (List.length_eq_zero_iff.1 (by omega)) hne
      · have hvs : EnumValue.latest n vs = EnumValue.latest n lists.flatten := h.latest n
        rw [List.flatten_append, latest_append, ← hvs]
        show EnumValue.latest n (byNumber (vs ++ ws)) = _
        rw [latest_byNumber, latest_append, Option.toList_some, List.flatten_singleton]

end EnumValue

/-! ### One attribute -/

namespace Attribute

variable {first a : Attribute} {rest : List Attribute}

/-- Whether the owner of an attribute gave a detail itself. -/
def gives (detail : String) (a : Attribute) : Bool := a.overrides.has detail

/-- What an attribute takes from its definitions, root first. -/
structure Inherits (first : Attribute) (rest : List Attribute) (a : Attribute) : Prop where
  name : a.name = (rest.getLastD first).name
  scalarType : a.scalarType = (rest.getLastD first).scalarType
  target : a.target = (rest.getLastD first).target
  isArray : a.isArray = (rest.getLastD first).isArray
  requirement : a.requirement = (nearest (gives "requirement") first rest).requirement
  caption : a.caption = (nearest (gives "caption") first rest).caption
  description : a.description = (nearest (gives "description") first rest).description
  deprecation : a.deprecation = (nearest (gives "@deprecated") first rest).deprecation
  sibling : a.sibling = (nearest (·.sibling.isGiven) first rest).sibling
  profile : a.profile = (nearest (·.profile.isGiven) first rest).profile
  enumValues : EnumValue.IsUnion ((first :: rest).filterMap (·.enumValues)) a.enumValues
  overrides : ∀ detail, detail ∈ a.overrides ↔ ∃ b ∈ first :: rest, detail ∈ b.overrides

/-- A detail that a descendant always gives is that of the last definition. -/
theorem foldl_refine_last {α : Type} {detail : Attribute → α}
    (hdetail : ∀ a b, detail (refine a b) = detail b) (first : Attribute) (rest : List Attribute) :
    detail (rest.foldl refine first) = detail (rest.getLastD first) := by
  induction rest using List.reverseRecOn with
  | nil => rfl
  | append_singleton rest b ih => rw [List.foldl_concat, hdetail, List.getLastD_concat]

theorem isUnion_foldl_refine (first : Attribute) (rest : List Attribute) :
    EnumValue.IsUnion ((first :: rest).filterMap (·.enumValues))
      (rest.foldl refine first).enumValues := by
  induction rest using List.reverseRecOn with
  | nil =>
    have hfirst : [first].filterMap (·.enumValues) = first.enumValues.toList := by
      cases h : first.enumValues <;> simp [h]
    rw [hfirst]
    exact EnumValue.isUnion_toList _
  | append_singleton rest b ih =>
    have hb : [b].filterMap (·.enumValues) = b.enumValues.toList := by
      cases h : b.enumValues <;> simp [h]
    rw [List.foldl_concat, ← List.cons_append, List.filterMap_append, hb]
    exact ih.union b.enumValues

theorem mem_overrides_foldl_refine (first : Attribute) (rest : List Attribute) (detail : String) :
    detail ∈ (rest.foldl refine first).overrides ↔ ∃ b ∈ first :: rest, detail ∈ b.overrides := by
  induction rest using List.reverseRecOn with
  | nil => simp
  | append_singleton rest b ih =>
    rw [List.foldl_concat, ← List.cons_append]
    refine NameSet.mem_union.trans ?_
    rw [ih]
    simp [or_and_right, exists_or, or_assoc]

/-- Refining one definition by the next keeps to the rule of every detail. -/
theorem inherits_foldl_refine (first : Attribute) (rest : List Attribute) :
    Inherits first rest (rest.foldl refine first) where
  name := foldl_refine_last (fun _ _ ↦ rfl) first rest
  scalarType := foldl_refine_last (fun _ _ ↦ rfl) first rest
  target := foldl_refine_last (fun _ _ ↦ rfl) first rest
  isArray := foldl_refine_last (fun _ _ ↦ rfl) first rest
  requirement := foldl_refine (fun _ _ ↦ rfl) first rest
  caption := foldl_refine (fun _ _ ↦ rfl) first rest
  description := foldl_refine (fun _ _ ↦ rfl) first rest
  deprecation := foldl_refine (fun _ _ ↦ rfl) first rest
  sibling := foldl_refine (fun _ _ ↦ rfl) first rest
  profile := foldl_refine (fun _ _ ↦ rfl) first rest
  enumValues := isUnion_foldl_refine first rest
  overrides := mem_overrides_foldl_refine first rest

end Attribute

/-! ### The attributes of a lineage -/

variable {definitions : Table Definition} {categories : Table Uid} {known t : Table Entity}
  {ancestors : List Definition} {d : Definition} {e : Entity} {n : String}

theorem eraseDups_eq_self {l : List String} (h : l.Nodup) : l.eraseDups = l := by
  induction l with
  | nil => rfl
  | cons a l ih =>
    obtain ⟨ha, hl⟩ := List.nodup_cons.1 h
    have hfilter : (l.filter fun b ↦ !b == a) = l :=
      List.filter_eq_self.2 fun b hb ↦ bne_iff_ne.2 fun hba : b = a ↦ ha (hba ▸ hb)
    rw [List.eraseDups_cons, hfilter, ih hl]

/-- Attributes are listed in the order in which a lineage first names them. -/
theorem names_lineageAttributes (chain : List Definition) :
    (lineageAttributes chain).names = (chain.flatMap (·.attributes.names)).eraseDups := by
  induction chain using List.reverseRecOn with
  | nil => rfl
  | append_singleton chain d ih =>
    have hmem (names : List String) :
        names.removeAll (chain.flatMap (·.attributes.names)).eraseDups =
        names.removeAll (chain.flatMap (·.attributes.names)) :=
      List.filter_congr fun n _ ↦ by simp [List.mem_eraseDups]
    have hnodup : (d.attributes.names.removeAll (chain.flatMap (·.attributes.names))).Nodup :=
      d.attributes.nodup.filter _
    rw [lineageAttributes_concat, names_refineAttributes, ih, hmem,
      List.flatMap_append, List.eraseDups_append, List.flatMap_singleton, eraseDups_eq_self hnodup]

/-! ### Entities -/

/-- What an entity takes from its ancestors, root first, and its own definition. -/
structure Entity.Inherits (ancestors : List Definition) (d : Definition) (e : Entity) : Prop where
  names : e.attributes.names = ((ancestors ++ [d]).flatMap (·.attributes.names)).eraseDups
  attributes : ∀ key a, e.attributes.get? key = some a →
    ∃ first rest, definers (ancestors ++ [d]) key = first :: rest ∧ Attribute.Inherits first rest a
  closed : e.closed = d.closed.getD (d.kind = .event)
  category_object : d.kind = .object → e.category = none
  category_event : d.kind = .event →
    e.category.map .str = ((ancestors ++ [d]).reverse.find? (·.category.isGiven)).map (·.category)

theorem Json.isNull_of_isGiven {v : Json} (h : v.isGiven = true) : v.isNull = false := by
  cases v with
  | null => cases h
  | _ => rfl

theorem categoryUid_eq_ok {event name : String} {category : Json} {uid : Uid}
    (h : categoryUid categories event category = .ok (name, uid)) : category = .str name := by
  unfold categoryUid at h
  split at h
  · next hother =>
    cases h
    cases category <;> simp_all [Json.isText, Json.text?]
  · obtain ⟨found, hfound, h⟩ := bind_eq_ok h
    have hlookup := mapError_eq_ok hfound
    cases found with
    | none => cases h
    | some found =>
      dsimp only at h
      split at h <;> cases h
      cases category <;> cases hlookup
      rfl

/-- The category of a lineage is that of the nearest member that has one. -/
theorem lineageCategory_eq (chain : List Definition) :
    lineageCategory chain =
      ((chain.reverse.find? (·.category.isGiven)).map (·.category)).getD .null := by
  rw [lineageCategory, List.find?_map]
  rfl

/-- The category of an event class is that of the nearest member of its lineage that has one. -/
theorem category_of_eventUids {chain : List Definition} {category : Option String}
    {uid : Uid} {classUid : Int}
    (h : eventUids categories chain d = .ok (category, uid, classUid)) :
    category.map .str = (chain.reverse.find? (·.category.isGiven)).map (·.category) := by
  unfold eventUids at h
  rw [lineageCategory_eq] at h
  cases hfind : chain.reverse.find? (·.category.isGiven) with
  | none =>
    rw [hfind] at h
    rw [Option.map_none, Option.getD_none] at h
    replace h := (if_pos (rfl : Json.null.isNull = true)).symm.trans h
    split at h <;> cases h
    rfl
  | some m =>
    have hgiven : m.category.isGiven = true :=
      List.find?_some (p := fun d : Definition ↦ d.category.isGiven) hfind
    have hnull : ¬ m.category.isNull = true := by
      rw [Json.isNull_of_isGiven hgiven]
      exact Bool.false_ne_true
    rw [hfind] at h
    dsimp only [Option.map_some, Option.getD_some] at h
    rw [if_neg hnull] at h
    obtain ⟨⟨name, nameUid⟩, hname, h⟩ := bind_eq_ok h
    rw [Option.map_some, categoryUid_eq_ok hname]
    cases huid : d.uid with
    | none =>
      rw [huid] at h
      cases h
      rfl
    | some own =>
      rw [huid] at h
      obtain ⟨_, -, h⟩ := bind_eq_ok h
      cases h
      rfl

theorem inherits_of_ofLineage (h : Entity.ofLineage categories (ancestors ++ [d]) d = .ok e) :
    e.Inherits ancestors d := by
  have hattributes := attributes_of_ofLineage h
  have hinherits (key : String) (a : Attribute) (ha : e.attributes.get? key = some a) :
      ∃ first rest, definers (ancestors ++ [d]) key = first :: rest ∧
      Attribute.Inherits first rest a := by
    rw [hattributes] at ha
    obtain ⟨first, rest, hdefiners, rfl⟩ := exists_definers_of_get? ha
    exact ⟨first, rest, hdefiners, Attribute.inherits_foldl_refine first rest⟩
  have hnames := (congrArg Table.names hattributes).trans (names_lineageAttributes _)
  unfold Entity.ofLineage at h
  cases hkind : d.kind with
  | object =>
    rw [hkind] at h
    obtain ⟨uids, huids, h⟩ := bind_eq_ok h
    cases huids
    cases h
    exact ⟨hnames, hinherits, by rw [hkind], fun _ ↦ rfl,
      fun hevent ↦ by rw [hkind] at hevent; cases hevent⟩
  | event =>
    rw [hkind] at h
    obtain ⟨⟨category, uid, classUid⟩, huids, h⟩ := bind_eq_ok h
    cases h
    exact ⟨hnames, hinherits, by rw [hkind],
      fun hobject ↦ (by rw [hkind] at hobject; cases hobject), fun _ ↦ category_of_eventUids huids⟩

theorem exists_descends_of_ofName (h : Entity.ofName definitions categories n = .ok e) :
    ∃ ancestors d, Descends definitions n ancestors d ∧ e.Inherits ancestors d := by
  obtain ⟨chain, hchain, h⟩ := bind_eq_ok h
  obtain ⟨ancestors, d, hd, rfl⟩ := descends_of_lineage hchain
  rw [List.getLast?_concat] at h
  exact ⟨ancestors, d, hd, inherits_of_ofLineage h⟩

/-! ### Entities that were worked out before -/

/-- The entities that are known after some names were asked for. A name that is refused adds
nothing. -/
inductive WorkedOut (definitions : Table Definition) (categories : Table Uid) : Table Entity → Prop
  | start : WorkedOut definitions categories .empty
  | more {known t : Table Entity} {n : String} {e : Entity} {j : Journal} :
      WorkedOut definitions categories known →
    (execute (resolve definitions categories known n) j).1 = .ok (e, t) →
    WorkedOut definitions categories t

theorem WorkedOut.exists_holdsEntities (h : WorkedOut definitions categories known) :
    ∃ names, HoldsEntities definitions categories names known := by
  induction h with
  | start => exact ⟨[], holdsEntities_empty⟩
  | more _ hresolve ih =>
    obtain ⟨names, hnames⟩ := ih
    exact ⟨_, hnames.resolve hresolve⟩

theorem HoldsEntities.ofName_of_resolve {names : List String} {j : Journal}
    (hknown : HoldsEntities definitions categories names known)
    (h : (execute (EventSchema.resolve definitions categories known n) j).1 = .ok (e, t)) :
    Entity.ofName definitions categories n = .ok e := by
  unfold EventSchema.resolve at h
  split at h
  · next hn =>
    cases h
    exact ((hknown.get?_iff n e).1 hn).2
  · obtain ⟨found, _, hfound, h⟩ := execute_bind_eq_ok h
    obtain ⟨⟨⟩, _, -, h⟩ := execute_bind_eq_ok h
    cases h
    exact (Prod.mk.inj hfound).1

/-- **Inheritance.** Whatever was asked for before, an entity that is worked out has the attributes
of its ancestors and its own definition, in the order in which they are first named from the root,
and every detail follows its rule. -/
theorem inherits_of_resolve (hknown : WorkedOut definitions categories known) {j : Journal}
    (h : (execute (resolve definitions categories known n) j).1 = .ok (e, t)) :
    ∃ ancestors d, Descends definitions n ancestors d ∧ e.Inherits ancestors d := by
  obtain ⟨names, hnames⟩ := hknown.exists_holdsEntities
  exact exists_descends_of_ofName (hnames.ofName_of_resolve h)

/-! ### A lineage of three -/

/-- The identifier of an activity, with what a definition says of it. -/
def activityAttribute (requirement caption : String) (values : List Int) (overrides : List String) :
    Attribute where
  name := "activity_id"
  scalarType := "integer_t"
  target := none
  isArray := false
  requirement := .str requirement
  caption := .str caption
  description := ""
  sibling := .null
  enumValues := some (values.map fun n ↦ ⟨n, .str caption, ""⟩)
  deprecation := none
  profile := .null
  overrides := .ofList overrides

/-- A definition of an event class that says little. -/
def plainEvent (name : String) (ancestor : Option String) (category : Json)
    (attributes : Entries Attribute) :
    Definition where
  kind := .event
  name := name
  ancestor := ancestor
  caption := .str name
  description := ""
  attributes := .ofList attributes
  closed := none
  category := category
  uid := none
  isHidden := true

/-- Logons are sessions, and sessions are activities. -/
def logonDefinitions : Table Definition := .ofList [
  ("logon", plainEvent "logon" (some "session") .null
    [("activity_id", activityAttribute "optional" "Logon activity" [3, 1] ["caption"])]),
  ("session", plainEvent "session" (some "activity") .null []),
  ("activity", plainEvent "activity" none (.str "other")
    [("activity_id", activityAttribute "required" "Activity" [2, 1] ["requirement"])])]

/-- A logon must have an activity, as every activity has. -/
theorem inherits_of_resolve_logon : ∃ known e t, WorkedOut logonDefinitions .empty known ∧
    (execute (resolve logonDefinitions .empty known "logon") default).1 = .ok (e, t) ∧
    ∃ ancestors d, Descends logonDefinitions "logon" ancestors d ∧ e.Inherits ancestors d := by
  have hsession : ∃ e known,
      (execute (resolve logonDefinitions .empty .empty "session") default).1 = .ok (e, known) ∧
        ∃ e t, (execute (resolve logonDefinitions .empty known "logon") default).1 = .ok (e, t) :=
    ⟨_, _, rfl, _, _, rfl⟩
  obtain ⟨_, known, hknown, e, t, hlogon⟩ := hsession
  exact ⟨known, e, t, .more .start hknown, hlogon, inherits_of_resolve (.more .start hknown) hlogon⟩

end EventSchema
