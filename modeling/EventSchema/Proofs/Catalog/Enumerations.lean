import EventSchema.Proofs.Catalog.Companions

/-!
# The numbers of an enumeration

An enumeration is written as an object whose keys spell numbers, and several texts spell one number.
Reading sorts the values and keeps them all, so a list that was read ascends, with no number twice,
exactly if no two of its entries spell one number (`numbered_of_readEnum`). Unions put every number
once. So the list of an inherited attribute ascends unless one definition of its lineage alone has a
list, and that does not (`EnumValue.IsUnion.numbered`).
-/

namespace EventSchema

/-! ### Lists of values -/

namespace EnumValue

variable {vs us : List EnumValue} {lists : List (List EnumValue)} {once : Prop}

/-- Some values in the order of their numbers, which ascend, so that none stands twice, under one
condition. -/
structure Numbered (vs : List EnumValue) (once : Prop) : Prop where
  ne_nil : vs ≠ []
  nondescending : vs.Pairwise fun v w ↦ v.value ≤ w.value
  ascending_iff : Ascending vs ↔ once
  nodup_iff : (vs.map EnumValue.value).Nodup ↔ once

theorem Ascending.nodup (h : Ascending vs) : (vs.map EnumValue.value).Nodup :=
  List.pairwise_map.2 (h.imp Int.ne_of_lt)

/-- Values in order ascend if no number stands twice. -/
theorem ascending_iff_nodup (h : vs.Pairwise fun v w ↦ v.value ≤ w.value) :
    Ascending vs ↔ (vs.map EnumValue.value).Nodup := by
  refine ⟨Ascending.nodup, fun hnodup ↦ ?_⟩
  have hne : vs.Pairwise fun v w ↦ v.value ≠ w.value := List.pairwise_map.1 hnodup
  exact h.imp₂ (fun _ _ hle hne ↦ Int.lt_iff_le_and_ne.2 ⟨hle, hne⟩) hne

theorem numbered_of_nodup_iff (hne : vs ≠ []) (hle : vs.Pairwise fun v w ↦ v.value ≤ w.value)
    (honce : (vs.map EnumValue.value).Nodup ↔ once) : Numbered vs once :=
  ⟨hne, hle, (ascending_iff_nodup hle).trans honce, honce⟩

theorem Ascending.numbered (h : Ascending vs) (hne : vs ≠ []) (honce : once) : Numbered vs once :=
  numbered_of_nodup_iff hne (h.imp Int.le_of_lt) (iff_of_true h.nodup honce)

/-- Sorting puts values in the order of their numbers. -/
theorem nondescending_mergeSort (vs : List EnumValue) :
    (vs.mergeSort fun v w ↦ decide (v.value ≤ w.value)).Pairwise fun v w ↦ v.value ≤ w.value := by
  have htrans (u v w : EnumValue) (huv : decide (u.value ≤ v.value) = true)
      (hvw : decide (v.value ≤ w.value) = true) : decide (u.value ≤ w.value) = true :=
    decide_eq_true (Int.le_trans (of_decide_eq_true huv) (of_decide_eq_true hvw))
  have htotal (v w : EnumValue) :
      (decide (v.value ≤ w.value) || decide (w.value ≤ v.value)) = true := by
    rw [Bool.or_eq_true, decide_eq_true_iff, decide_eq_true_iff]
    exact Int.le_total v.value w.value
  exact (List.pairwise_mergeSort htrans htotal vs).imp of_decide_eq_true

/-- Each number that stands among some values is kept. -/
theorem mem_values_byNumber {n : Int} :
    n ∈ (byNumber vs).map EnumValue.value ↔ n ∈ vs.map EnumValue.value := by
  have hlatest (us : List EnumValue) : n ∈ us.map EnumValue.value ↔ latest n us ≠ none := by
    rw [ne_eq, latest_eq_none_iff, List.mem_map]
    simp only [not_forall, not_not, exists_prop]
  rw [hlatest, hlatest, latest_byNumber]

theorem byNumber_ne_nil (hne : vs ≠ []) : byNumber vs ≠ [] := by
  intro hnil
  obtain ⟨v, vs, rfl⟩ := List.exists_cons_of_ne_nil hne
  have hnone : latest v.value (v :: vs) = none := by
    rw [← latest_byNumber, hnil]
    rfl
  exact latest_eq_none_iff.1 hnone v List.mem_cons_self rfl

/-- A union of several lists ascends, and one list alone is taken over. -/
theorem IsUnion.numbered (h : IsUnion lists (some vs))
    (hlists : ∀ us ∈ lists, ∃ once, Numbered us once) :
    Numbered vs (∀ us, lists = [us] → Ascending us) := by
  rcases lists with _ | ⟨us, _ | ⟨us', rest⟩⟩
  · cases h.eq_none_iff.2 rfl
  · obtain rfl : vs = us := Option.some.inj (h.alone us rfl)
    obtain ⟨once, hvs⟩ := hlists vs List.mem_cons_self
    refine numbered_of_nodup_iff hvs.ne_nil hvs.nondescending ?_
    rw [← ascending_iff_nodup hvs.nondescending]
    exact ⟨fun hascending us hus ↦ (List.singleton_inj.1 hus) ▸ hascending, fun hall ↦ hall vs rfl⟩
  · have hascending : Ascending vs := h.ascending (Nat.le_add_left 2 rest.length)
    refine hascending.numbered ?_ fun us hus ↦ nomatch hus
    rintro rfl
    -- the union has a value for each number of the first list, which has some value
    obtain ⟨once, hus⟩ := hlists us List.mem_cons_self
    obtain ⟨v, hv⟩ := List.exists_mem_of_ne_nil us hus.ne_nil
    refine latest_eq_none_iff.1 (h.latest v.value).symm v ?_ rfl
    exact List.mem_flatten_of_mem List.mem_cons_self hv

end EnumValue

open EnumValue

namespace Catalog

variable {dict : Dictionary} {kind : EntityKind} {place key : String}
  {v value : Json} {vs : List EnumValue} {a : Attribute} {d : Definition} {item : ResolvedItem}

/-! ### Enumerations that were read -/

/-- The number that an entry of an enumeration is for, if it is not passed over. -/
def numberOf? (entry : String × Json) : Option Int :=
  match entry.2 with
  | .obj _ => Text.readInteger? entry.1
  | _ => none

/-- The numbers that an enumeration spells, once for every entry that is not passed over. -/
def spelledNumbers : Json → List Int
  | .obj entries => entries.filterMap numberOf?
  | _ => []

/-- What the description of an attribute says of its values. -/
def enumOf : Json → Json
  | .obj members => (Entries.get? members "enum").getD .null
  | _ => .null

theorem value_of_enumValue? {detail : Json} {found : Option EnumValue}
    (h : enumValue? key detail = .ok found) :
    found.map EnumValue.value = numberOf? (key, detail) := by
  unfold enumValue? at h
  cases hnumber : Text.readInteger? key with
  | none =>
    rw [hnumber] at h
    cases h
    cases detail <;> first | exact hnumber.symm | rfl
  | some number =>
    rw [hnumber] at h
    cases detail with
    | obj members =>
      obtain ⟨description, -, h⟩ := bind_eq_ok h
      cases h
      exact hnumber.symm
    | _ =>
      cases h
      rfl

theorem plainText_empty : Json.plainText (.str "") = .ok "" := by
  rw [Json.plainText, (by decide +kernel : Text.plain "" = "")]

/-- The caption of an entry that says nothing is its number. -/
theorem enumValue?_empty {number : Int} (h : Text.readInteger? key = some number) :
    enumValue? key (.obj []) = .ok (some ⟨number, .str (toString number), ""⟩) := by
  unfold enumValue?
  rw [h]
  simp only [Entries.get?, Option.getD_none, plainText_empty]
  rfl

/-- Each entry that is not passed over gives a value of its number. -/
theorem values_of_enumValues {entries : List (String × Json)} (h : enumValues entries = .ok vs) :
    vs.map EnumValue.value = entries.filterMap numberOf? := by
  induction entries generalizing vs with
  | nil =>
    cases h
    rfl
  | cons entry rest ih =>
    obtain ⟨first, hfirst, h⟩ := bind_eq_ok h
    obtain ⟨others, hothers, h⟩ := bind_eq_ok h
    cases h
    rw [List.map_append, ih hothers, List.filterMap_cons, ← value_of_enumValue? hfirst]
    cases first <;> rfl

/-- The values of an enumeration that was read stand in the order of their numbers, all of them, and
they ascend exactly if no number is spelled twice. -/
theorem numbered_of_readEnum (h : readEnum v = .ok (some vs)) :
    Numbered vs (spelledNumbers v).Nodup := by
  unfold readEnum at h
  split at h
  · next entries =>
    obtain ⟨values, hvalues, h⟩ := bind_eq_ok h
    have hfound := Except.ok.inj h
    split at hfound
    · cases hfound
    · next hne =>
      cases hfound
      have hperm := List.mergeSort_perm values fun v w ↦ decide (v.value ≤ w.value)
      refine numbered_of_nodup_iff (fun hnil ↦ hne (List.isEmpty_iff.2 hnil))
        (nondescending_mergeSort values) ?_
      rw [(hperm.map EnumValue.value).nodup_iff, values_of_enumValues hvalues, spelledNumbers]
  · cases h

/-! ### Attributes, definitions and shared enumerations -/

/-- The values of an attribute are what the dictionary and its owner together say of them. -/
theorem enumValues_of_readAttribute (h : readAttribute dict place key value = .ok a) :
    ∃ standing, dict.attributes.get? key = some standing ∧
      readEnum (enumOf (standing.merge value)) = .ok a.enumValues := by
  obtain ⟨standing, details, hstanding, hdetails, hvalues⟩ := (readAttribute_ok h).values
  refine ⟨standing, hstanding, ?_⟩
  unfold Json.membersFor at hdetails
  split at hdetails
  · next hmerge =>
    cases hdetails
    rw [hmerge]
    exact hvalues
  · cases hdetails

/-- Values of a definition are those of an attribute that its item gives, since companions have
none. -/
theorem exists_numbered_of_readDefinition (h : readDefinition dict kind item = .ok d)
    (ha : d.attributes.get? key = some a) (hvs : a.enumValues = some vs) :
    ∃ standing value, dict.attributes.get? key = some standing ∧ (key, value) ∈ item.attributes ∧
      Numbered vs (spelledNumbers (enumOf (standing.merge value))).Nodup := by
  obtain ⟨place, read, hread, hd⟩ := (readDefinition_ok h).attributes
  have hget : read.get? key = some a := by
    rw [hd] at ha
    split at ha
    · rw [get?_addCompanions, Option.or_eq_some_iff] at ha
      refine ha.resolve_right fun hcompanion ↦ ?_
      obtain ⟨b, -, rfl⟩ := Option.map_eq_some_iff.1 hcompanion.2
      cases hvs
    · exact ha
  obtain ⟨value, hvalue, hattribute⟩ :=
    (exists_value_of_readAttributes hread hget).resolve_left (by simp)
  obtain ⟨standing, hstanding, henum⟩ := enumValues_of_readAttribute hattribute
  rw [hvs] at henum
  exact ⟨standing, value, hstanding, hvalue, numbered_of_readEnum henum⟩

/-- A shared enumeration is that of a dictionary attribute of its name. -/
theorem exists_numbered_of_readSharedEnumsFrom {read t : Table SharedEnum}
    {attributes : List (String × Json)} {n : String} {e : SharedEnum}
    (h : readSharedEnumsFrom read attributes = .ok t) (he : t.get? n = some e) :
    read.get? n = some e ∨
      ∃ value, (n, value) ∈ attributes ∧
      Numbered e.values (spelledNumbers (enumOf value)).Nodup := by
  induction attributes generalizing read with
  | nil =>
    cases h
    exact .inl he
  | cons first rest ih =>
    obtain ⟨name, value⟩ := first
    have hlater (read : Table SharedEnum) (h : readSharedEnumsFrom read rest = .ok t) :
        read.get? n = some e ∨ ∃ value', (n, value') ∈ (name, value) :: rest ∧
          Numbered e.values (spelledNumbers (enumOf value')).Nodup := by
      rcases ih h with hread | ⟨value', hvalue', hnumbered⟩
      · exact .inl hread
      · exact .inr ⟨value', List.mem_cons_of_mem _ hvalue', hnumbered⟩
    unfold readSharedEnumsFrom at h
    split at h
    · obtain ⟨members, hmembers, h⟩ := bind_eq_ok h
      obtain ⟨found, hfound, h⟩ := bind_eq_ok h
      cases found with
      | none => exact hlater read h
      | some values =>
        rcases hlater _ h with hread | hrest
        · rw [Table.get?_put] at hread
          split at hread
          · next hname =>
            cases hread
            refine .inr ⟨value, hname ▸ List.mem_cons_self, ?_⟩
            cases value with
            | obj entries =>
              cases hmembers
              exact numbered_of_readEnum (mapError_eq_ok hfound)
            | _ => cases hmembers
          · exact .inl hread
        · exact .inr hrest
    · exact hlater read h

theorem exists_numbered_of_readSharedEnums {attributes : Entries Json}
    {t : Table SharedEnum} {n : String} {e : SharedEnum} (h : readSharedEnums attributes = .ok t)
    (he : t.get? n = some e) :
    ∃ value, (n, value) ∈ attributes ∧ Numbered e.values (spelledNumbers (enumOf value)).Nodup := by
  obtain ⟨value, hvalue, hnumbered⟩ :=
    (exists_numbered_of_readSharedEnumsFrom h he).resolve_left (by simp)
  exact ⟨value, List.mem_mergeSort.1 hvalue, hnumbered⟩

end Catalog

/-! ### Entities -/

variable {definitions : Table Definition} {categories : Table Uid} {n key : String}
  {e : Entity} {a : Attribute} {vs : List EnumValue}

/-- The values of an inherited attribute are the union of those of its definitions. -/
theorem exists_numbered_of_ofName (h : Entity.ofName definitions categories n = .ok e)
    (hall : ∀ m d b us, definitions.get? m = some d → d.attributes.get? key = some b →
      b.enumValues = some us → ∃ once, Numbered us once)
    (ha : e.attributes.get? key = some a) (hvs : a.enumValues = some vs) :
    ∃ chain, lineage definitions n = .ok chain ∧
      Numbered vs (∀ us, (definers chain key).filterMap (·.enumValues) = [us] → Ascending us) := by
  obtain ⟨chain, hchain, hattributes⟩ := attributes_of_ofName h
  rw [hattributes] at ha
  obtain ⟨first, rest, hdefiners, rfl⟩ := exists_definers_of_get? ha
  have hunion := Attribute.isUnion_foldl_refine first rest
  rw [hvs] at hunion
  refine ⟨chain, hchain, hdefiners ▸ hunion.numbered fun us hus ↦ ?_⟩
  obtain ⟨b, hb, hus⟩ := List.mem_filterMap.1 hus
  obtain ⟨d, hd, hget⟩ := List.mem_filterMap.1 (hdefiners ▸ hb)
  obtain ⟨m, hm⟩ := mem_of_lineage hchain hd
  exact hall m d b us hm hget hus

end EventSchema
