import EventSchema.Package.EntityModule
import EventSchema.Proofs.Computation
import EventSchema.Proofs.Identifiers
import Mathlib.Data.List.Nodup
import Mathlib.Data.List.Pairwise

/-!
# Names that can be told apart

When the names of a sub-package were checked, its entities have different modules and export
different names, none of which generated modules use for something else
(`Distinguished.of_checkNames`).

Exported names hold no underscore. A name that goes by another name in a module is given one at its
end, so names that differ go by different names (`localNameIn_inj`), and none of these is a name
that the module has for something else (`localNameIn_fresh`).
-/

namespace EventSchema.Package

variable {folder : String} {e : Entity} {entities : List Entity} {taken taken' : TakenNames}

/-- The names that the module of an entity exports. -/
def exportsOf (e : Entity) : List String := [e.typeName, dictName e]

/-! ### Names of a sub-package -/

/-- Entities with different modules and different exported names, none of them reserved. -/
structure Distinguished (entities : List Entity) : Prop where
  modules : (entities.map moduleOf).Nodup
  exports : (entities.flatMap exportsOf).Nodup
  free : ∀ n ∈ entities.flatMap exportsOf, n ∉ reservedNames

theorem names_put_of_get?_eq_none {α : Type} {t : Table α} {n : String}
    {a : α} (h : t.get? n = none) :
    (t.put n a).names = t.names ++ [n] := by
  have hn : n ∉ t.names := Entries.get?_eq_none_iff.1 h
  rw [Table.names_put, if_neg hn]

/-- Exported names are taken when they are new and not reserved. -/
theorem takeExports_ok {names : List String} (h : takeExports folder e taken names = .ok taken') :
    taken'.modules = taken.modules ∧ taken'.exported.names = taken.exported.names ++ names ∧
      ∀ n ∈ names, n ∉ reservedNames := by
  induction names generalizing taken with
  | nil =>
    cases h
    exact ⟨rfl, (List.append_nil _).symm, fun n hn ↦ absurd hn List.not_mem_nil⟩
  | cons name names ih =>
    rw [takeExports] at h
    split at h
    · cases h
    · next hfree =>
      split at h
      · cases h
      · next hnew =>
        obtain ⟨hmodules, hexported, hall⟩ := ih h
        refine ⟨hmodules, ?_, fun n hn ↦ ?_⟩
        · rw [hexported, names_put_of_get?_eq_none hnew, List.append_assoc, List.singleton_append]
        · rcases List.mem_cons.1 hn with rfl | hn
          · exact mt List.contains_iff_mem.2 hfree
          · exact hall n hn

theorem takeNames_ok (h : takeNames folder taken entities = .ok taken') :
    taken'.modules.names = taken.modules.names ++ entities.map moduleOf ∧
      taken'.exported.names = taken.exported.names ++ entities.flatMap exportsOf ∧
      ∀ n ∈ entities.flatMap exportsOf, n ∉ reservedNames := by
  induction entities generalizing taken with
  | nil =>
    cases h
    exact ⟨(List.append_nil _).symm, (List.append_nil _).symm,
      fun n hn ↦ absurd hn List.not_mem_nil⟩
  | cons e entities ih =>
    rw [takeNames] at h
    split at h
    · cases h
    · next hnew =>
      obtain ⟨middle, hexports, h⟩ := bind_eq_ok h
      obtain ⟨hmodule, hexported, hfree⟩ := takeExports_ok hexports
      obtain ⟨hmodules, hexported', hall⟩ := ih h
      refine ⟨?_, ?_, fun n hn ↦ ?_⟩
      · rw [hmodules, hmodule, names_put_of_get?_eq_none hnew, List.append_assoc, List.map_cons,
          List.singleton_append]
      · rw [hexported', hexported, List.append_assoc]
        rfl
      · rcases List.mem_append.1 hn with hn | hn
        · exact hfree n hn
        · exact hall n hn

theorem Distinguished.of_checkNames {t : Table Entity} (h : checkNames folder t = .ok ()) :
    Distinguished t.values := by
  obtain ⟨taken, htaken, -⟩ := bind_eq_ok h
  obtain ⟨hmodules, hexported, hfree⟩ := takeNames_ok htaken
  -- the tables of what was taken hold every name once
  have hmodulesNodup : taken.modules.names.Nodup := taken.modules.nodup
  have hexportedNodup : taken.exported.names.Nodup := taken.exported.nodup
  rw [hmodules] at hmodulesNodup
  rw [hexported] at hexportedNodup
  exact ⟨hmodulesNodup, hexportedNodup, hfree⟩

/-- An exported name tells its entity. -/
theorem Distinguished.eq_of_mem_exports (h : Distinguished entities)
    {f : Entity} (he : e ∈ entities) (hf : f ∈ entities) {n : String} (hn : n ∈ exportsOf e)
    (hnf : n ∈ exportsOf f) : e = f := by
  have hdisjoint : entities.Pairwise (Function.onFun List.Disjoint exportsOf) :=
    (List.nodup_flatMap.1 h.exports).2
  have hsymm : Std.Symm (Function.onFun List.Disjoint exportsOf) :=
    ⟨fun _ _ hab _ ha hb ↦ hab hb ha⟩
  by_contra hne
  exact hdisjoint.forall he hf hne hn hnf

/-! ### Names inside a module -/

theorem underscore_not_mem_exports {n : String} (h : n ∈ exportsOf e) : '_' ∉ n.toList := by
  have htype := Identifier.underscore_not_mem_typeName e.name
  rcases List.mem_pair.1 h with rfl | rfl
  · exact htype
  · rw [dictName, String.toList_append, List.mem_append]
    exact fun hmem ↦ hmem.elim htype (by decide)

/-- An exported name goes by itself if the module does not use it, and else by the same name with an
underscore. -/
theorem localNameIn_cases (e : Entity) (n : String) :
    (localNameIn e n = n ∧ n ∉ reservedNames ∧ n ∉ exportsOf e) ∨ localNameIn e n = n ++ "_" := by
  unfold localNameIn
  split
  · exact .inr rfl
  · next h =>
    refine .inl ⟨rfl, ?_⟩
    simpa [exportsOf, not_or, and_assoc] using h

theorem underscore_mem_append (n : String) : '_' ∈ (n ++ "_").toList := by
  rw [String.toList_append]
  exact List.mem_append_right _ (by decide)

theorem localNameIn_inj {m n : String} (hm : '_' ∉ m.toList) (hn : '_' ∉ n.toList)
    (h : localNameIn e m = localNameIn e n) : m = n := by
  rcases localNameIn_cases e m with ⟨hme, -, -⟩ | hme
  · rcases localNameIn_cases e n with ⟨hne, -, -⟩ | hne
    · rw [← hme, h, hne]
    · exact absurd (underscore_mem_append n) (by rwa [← hne, ← h, hme])
  · rcases localNameIn_cases e n with ⟨hne, -, -⟩ | hne
    · exact absurd (underscore_mem_append m) (by rwa [← hme, h, hne])
    · rw [hme, hne] at h
      exact (String.append_left_inj "_").1 h

/-- The names that the table of captions of a labelled attribute may have end in a letter. -/
theorem getLast?_labelsName (a : LabelledAttribute) : a.labelsName.toList.getLast? = some 'S' := by
  rw [LabelledAttribute.labelsName, String.toList_append, List.getLast?_append]
  rfl

/-- Exported names go by names that are not reserved, that the module does not export and that no
table of captions has. -/
theorem localNameIn_fresh {n : String} (hn : '_' ∉ n.toList) :
    localNameIn e n ∉ reservedNames ∧ localNameIn e n ∉ exportsOf e ∧
      ∀ a : LabelledAttribute, localNameIn e n ≠ a.labelsName := by
  rcases localNameIn_cases e n with ⟨h, hreserved, hown⟩ | h
  · rw [h]
    refine ⟨hreserved, hown, fun a ha ↦ hn ?_⟩
    rw [ha, LabelledAttribute.labelsName, String.toList_append]
    exact List.mem_append_right _ (by decide)
  · rw [h]
    have hlast : (n ++ "_").toList.getLast? = some '_' := by
      rw [String.toList_append, List.getLast?_append]
      rfl
    refine ⟨fun hmem ↦ ?_, fun hmem ↦ underscore_not_mem_exports hmem (underscore_mem_append n),
      fun a ha ↦ ?_⟩
    · have hall : ∀ r ∈ reservedNames, r.toList.getLast? ≠ some '_' := by decide
      exact hall _ hmem hlast
    · rw [ha, getLast?_labelsName] at hlast
      cases hlast

end EventSchema.Package
