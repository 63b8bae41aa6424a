import Mathlib.Data.List.Nodup
import EventSchema.Payload.Model
import EventSchema.Proofs.Identifiers
import EventSchema.Proofs.Tables

/-!
# The members that fields take

A field takes the member that goes by the name of its attribute, else the one that goes by its own
name (`Payload.memberOf?`). In the model of an entity no field takes the member by which another one
is usually given (`Model.Regular`), and what no field takes is left over
(`Payload.mem_extrasOf_iff`).
-/

namespace EventSchema

variable {m : Model} {data : Payload} {rule : FieldRule} {v : Json} {key : String} {e : Entity}

/-! ### Fields of a model -/

/-- The fields of a model are kept apart: each has an attribute of its own, and no field goes by the
name of the attribute of another one. -/
structure Model.Regular (m : Model) : Prop where
  keys : (m.fields.values.map (·.key)).Nodup
  apart : ∀ r ∈ m.fields.values, ∀ s ∈ m.fields.values, r.name = s.key → r = s

/-- The rules of a model are those of the attributes of its entity. -/
theorem Model.exists_of_mem_ofEntity (h : rule ∈ (Model.ofEntity e).fields.values) :
    ∃ a ∈ e.attributes.values, rule = .ofAttribute a := by
  obtain ⟨name, hname⟩ := Table.mem_values_iff.1 h
  obtain ⟨a, ha, heq⟩ := List.mem_map.1 (Table.mem_of_get?_ofList hname)
  exact ⟨a, ha, (Prod.mk.inj heq).2.symm⟩

theorem Model.regular_ofEntity (e : Entity) : (Model.ofEntity e).Regular := by
  have hentry : ∀ entry ∈ (Model.ofEntity e).fields.entries,
      entry.1 = entry.2.name ∧ entry.2.name = Identifier.fieldName entry.2.key := by
    rintro ⟨name, rule⟩ hmem
    obtain ⟨a, -, heq⟩ := List.mem_map.1 (Table.mem_of_get?_ofList (Table.get?_eq_some_iff.2 hmem))
    obtain ⟨rfl, rfl⟩ := Prod.mk.inj heq
    exact ⟨rfl, rfl⟩
  have hnames : ((Model.ofEntity e).fields.values.map (·.name)).Nodup := by
    have heq : (Model.ofEntity e).fields.values.map (·.name) = (Model.ofEntity e).fields.names := by
      rw [Table.values, Table.names, Entries.values, Entries.names, List.map_map]
      exact List.map_congr_left fun entry hmem ↦ (hentry entry hmem).1.symm
    rw [heq]
    exact (Model.ofEntity e).fields.nodup
  have hname :
      ∀ r ∈ (Model.ofEntity e).fields.values, r.name = Identifier.fieldName r.key := fun r hr ↦ by
    obtain ⟨entry, hmem, rfl⟩ := List.mem_map.1 hr
    exact (hentry entry hmem).2
  constructor
  · refine List.Nodup.of_map Identifier.fieldName ?_
    rw [List.map_map]
    have heq : (Model.ofEntity e).fields.values.map (Identifier.fieldName ∘ (·.key)) =
        (Model.ofEntity e).fields.values.map (·.name) :=
      List.map_congr_left fun r hr ↦ (hname r hr).symm
    rwa [heq]
  · intro r hr s hs hkey
    refine List.inj_on_of_nodup_map hnames hr hs ?_
    rw [hname s hs, ← hkey, hname r hr, Identifier.fieldName_fieldName]

namespace Payload

/-! ### Members -/

theorem get?_of_memberOf? (h : memberOf? rule data = some (key, v)) :
    Entries.get? data key = some v := by
  unfold memberOf? at h
  split at h
  · next hkey =>
    cases h
    exact hkey
  · obtain ⟨w, hw, heq⟩ := Option.map_eq_some_iff.1 h
    cases heq
    exact hw

theorem name_of_memberOf? {member : String × Json} (h : memberOf? rule data = some member) :
    member.1 = rule.key ∨ member.1 = rule.name := by
  unfold memberOf? at h
  split at h
  · cases h
    exact .inl rfl
  · obtain ⟨v, -, rfl⟩ := Option.map_eq_some_iff.1 h
    exact .inr rfl

theorem mem_extrasOf {member : String × Json} (hmem : member ∈ data)
    (hfields : ∀ rule ∈ m.fields.values, member.1 ≠ rule.key ∧ member.1 ≠ rule.name) :
    member ∈ extrasOf m data := by
  unfold extrasOf
  refine List.mem_filter.2 ⟨hmem, (Bool.not_eq_true' _).mpr (Bool.eq_false_iff.2 fun htaken ↦ ?_)⟩
  obtain ⟨rule, hrule, hname⟩ := List.mem_filterMap.1 (List.contains_iff_mem.1 htaken)
  obtain ⟨taken, htaken, heq⟩ := Option.map_eq_some_iff.1 hname
  rcases name_of_memberOf? htaken with hkey | hfield
  · exact (hfields rule hrule).1 (heq.symm.trans hkey)
  · exact (hfields rule hrule).2 (heq.symm.trans hfield)

theorem memberOf?_eq_none_iff : memberOf? rule data = none ↔
    rule.key ∉ data.names ∧ rule.name ∉ data.names := by
  rw [memberOf?, ← Entries.get?_eq_none_iff, ← Entries.get?_eq_none_iff]
  cases Entries.get? data rule.key with
  | none => rw [Option.map_eq_none_iff]; exact ⟨fun h ↦ ⟨rfl, h⟩, And.right⟩
  | some v => exact ⟨nofun, nofun⟩

theorem memberOf?_of_key (h : Entries.get? data rule.key = some v) :
    memberOf? rule data = some (rule.key, v) := by
  rw [memberOf?, h]

/-- The members that are left over are those that no field takes. -/
theorem mem_extrasOf_iff {member : String × Json} : member ∈ extrasOf m data ↔
    member ∈ data ∧ ∀ r ∈ m.fields.values, ∀ taken, memberOf? r data = some taken →
    taken.1 ≠ member.1 := by
  rw [extrasOf, List.mem_filter, Bool.not_eq_true', ← Bool.not_eq_true, List.contains_iff_mem,
    List.mem_filterMap]
  refine and_congr_right fun _ ↦ ⟨fun h r hr taken htaken heq ↦ h ⟨r, hr, ?_⟩, ?_⟩
  · rw [htaken, Option.map_some, heq]
  · rintro h ⟨r, hr, hname⟩
    obtain ⟨taken, htaken, heq⟩ := Option.map_eq_some_iff.1 hname
    exact h r hr taken htaken heq

/-- No member is left over that goes by the name of the attribute of a field. -/
theorem key_not_mem_extrasOf (hrule : rule ∈ m.fields.values) :
    rule.key ∉ (extrasOf m data).names := fun hmem ↦ by
  obtain ⟨member, hmember, hkey⟩ := List.mem_map.1 hmem
  obtain ⟨hdata, hleft⟩ := mem_extrasOf_iff.1 hmember
  cases hget : Entries.get? data rule.key with
  | none => exact Entries.get?_eq_none_iff.1 hget (hkey ▸ List.mem_map_of_mem hdata)
  | some v => exact hleft rule hrule _ (memberOf?_of_key hget) hkey.symm

end Payload

end EventSchema
