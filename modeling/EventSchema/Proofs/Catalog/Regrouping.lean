import EventSchema.Proofs.Catalog.Lineages

/-!
# Merging ancestors in groups

An enumeration is told by the last value of each number (`EnumValue.latest`), and the union of two
by that of the one list behind the other. So unions can be made in any grouping, and with them
refinements: a group of adjacent members of a lineage can be merged beforehand into one definition
(`merging_associative`).
-/

namespace EventSchema

/-! ### Numbered values -/

namespace EnumValue

variable {v w : EnumValue} {vs ws : List EnumValue} {n : Int}

/-- Values ascend by number, so no number stands twice. -/
def Ascending (vs : List EnumValue) : Prop := vs.Pairwise fun v w ↦ v.value < w.value

/-- Of some values the last one with a number. -/
def latest (n : Int) : List EnumValue → Option EnumValue
  | [] => none
  | v :: vs => (latest n vs).or (if v.value = n then some v else none)

/-- The last value with a number is in the second list, or else in the first. -/
theorem latest_append (vs ws : List EnumValue) :
    latest n (vs ++ ws) = (latest n ws).or (latest n vs) := by
  induction vs with
  | nil => rw [List.nil_append, latest, Option.or_none]
  | cons v vs ih => rw [List.cons_append, latest, latest, ih, Option.or_assoc]

/-- There is no last value with a number if none has it. -/
theorem latest_eq_none_iff : latest n vs = none ↔ ∀ v ∈ vs, v.value ≠ n := by
  induction vs with
  | nil => exact iff_of_true rfl (List.forall_mem_nil _)
  | cons v vs ih =>
    rw [latest, Option.or_eq_none_iff, ih, List.forall_mem_cons, ite_eq_right_iff, and_comm]; simp

theorem mem_of_latest (h : latest n vs = some v) : v ∈ vs ∧ v.value = n := by
  induction vs with
  | nil => cases h
  | cons w ws ih =>
    rw [latest, Option.or_eq_some_iff] at h
    rcases h with h | ⟨-, h⟩
    · exact ⟨List.mem_cons_of_mem _ (ih h).1, (ih h).2⟩
    · split at h
      · next hw =>
        cases h
        exact ⟨List.mem_cons_self, hw⟩
      · cases h

/-- A value with a smaller number than all others is the last one with its own. -/
theorem latest_cons_of_lt (h : ∀ w ∈ vs, v.value < w.value) :
    latest n (v :: vs) = if v.value = n then some v else latest n vs := by
  rw [latest]
  split
  · next hv =>
    have hnone : latest n vs = none := latest_eq_none_iff.2 fun w hw ↦ by have := h w hw; omega
    rw [hnone, Option.none_or]
  · rw [Option.or_none]

/-- Where numbers ascend each value is the last one with its number. -/
theorem Ascending.latest_of_mem (h : Ascending vs) (hv : v ∈ vs) : latest v.value vs = some v := by
  induction vs with
  | nil => cases hv
  | cons w ws ih =>
    obtain ⟨hw, hws⟩ := List.pairwise_cons.1 h
    rw [latest_cons_of_lt hw]
    rcases List.mem_cons.1 hv with rfl | hv
    · exact if_pos rfl
    · rw [if_neg (Int.ne_of_lt (hw v hv)), ih hws hv]

/-- Values in ascending order are told by the value of each number. -/
theorem Ascending.eq_of_latest (hvs : Ascending vs) (hws : Ascending ws)
    (h : ∀ n, latest n vs = latest n ws) :
    vs = ws := by
  have hnodup {us : List EnumValue} (hus : Ascending us) : us.Nodup :=
    hus.imp fun hlt heq ↦ Int.ne_of_lt hlt (congrArg value heq)
  have hmem {us : List EnumValue} (hus : Ascending us) (v : EnumValue) : v ∈ us ↔
      latest v.value us = some v :=
    ⟨hus.latest_of_mem, fun hv ↦ (mem_of_latest hv).1⟩
  refine List.Perm.eq_of_pairwise (fun v w _ _ hlt hlt' ↦ absurd hlt' (by omega)) hvs hws ?_
  exact (List.perm_ext_iff_of_nodup (hnodup hvs) (hnodup hws)).2 fun v ↦ by
    rw [hmem hvs, hmem hws, h]

/-- A value that is inserted comes to those that are there. -/
theorem mem_insert (h : v ∈ insert w vs) : v = w ∨ v ∈ vs := by
  induction vs with
  | nil => exact .inl (List.mem_singleton.1 h)
  | cons u us ih =>
    rw [insert] at h
    split at h
    · exact List.mem_cons.1 h
    · split at h
      · exact (List.mem_cons.1 h).imp_right (List.mem_cons_of_mem _)
      · rcases List.mem_cons.1 h with rfl | h
        · exact .inr List.mem_cons_self
        · exact (ih h).imp_right (List.mem_cons_of_mem _)

/-- Numbers still ascend after a value was inserted. -/
theorem Ascending.insert (h : Ascending vs) (w : EnumValue) : Ascending (insert w vs) := by
  induction vs with
  | nil => exact List.pairwise_singleton _ _
  | cons u us ih =>
    obtain ⟨hu, hus⟩ := List.pairwise_cons.1 h
    rw [EnumValue.insert]
    split
    · next hlt =>
      refine List.pairwise_cons.2 ⟨List.forall_mem_cons.2 ⟨hlt, fun v hv ↦ ?_⟩, h⟩
      exact Int.lt_trans hlt (hu v hv)
    · next hnlt =>
      split
      · next heq => exact List.pairwise_cons.2 ⟨fun v hv ↦ heq ▸ hu v hv, hus⟩
      · next hne =>
        refine List.pairwise_cons.2 ⟨fun v hv ↦ ?_, ih hus⟩
        rcases mem_insert hv with rfl | hv
        · omega
        · exact hu v hv

/-- A value that is inserted counts for its number. -/
theorem Ascending.latest_insert (h : Ascending vs) (w : EnumValue) :
    latest n (EnumValue.insert w vs) = if w.value = n then some w else latest n vs := by
  induction vs with
  | nil => exact Option.none_or
  | cons u us ih =>
    obtain ⟨hu, hus⟩ := List.pairwise_cons.1 h
    have hinsert := h.insert w
    rw [EnumValue.insert] at hinsert ⊢
    split at hinsert
    · next hlt => rw [if_pos hlt, latest_cons_of_lt (List.pairwise_cons.1 hinsert).1]
    · next hnlt =>
      rw [if_neg hnlt]
      split at hinsert
      · next heq =>
        rw [if_pos heq, latest_cons_of_lt (List.pairwise_cons.1 hinsert).1,
          latest_cons_of_lt hu, ← heq]
        split <;> rfl
      · next hne =>
        rw [if_neg hne, latest_cons_of_lt (List.pairwise_cons.1 hinsert).1,
          latest_cons_of_lt hu, ih hus]
        split
        · next hn => rw [if_neg fun hw ↦ hne (hw.trans hn.symm)]
        · rfl

/-- Ordering by number inserts one value after another. -/
theorem byNumber_concat (vs : List EnumValue) (w : EnumValue) :
    byNumber (vs ++ [w]) = EnumValue.insert w (byNumber vs) := by
  rw [byNumber, List.foldl_concat, byNumber]

/-- Values that are ordered by number ascend. -/
theorem ascending_byNumber (vs : List EnumValue) : Ascending (byNumber vs) := by
  induction vs using List.reverseRecOn with
  | nil => exact List.Pairwise.nil
  | append_singleton vs w ih => rw [byNumber_concat]; exact ih.insert w

/-- Of equal numbers the last value counts. -/
theorem latest_byNumber (n : Int) (vs : List EnumValue) : latest n (byNumber vs) = latest n vs := by
  induction vs using List.reverseRecOn with
  | nil => rfl
  | append_singleton vs w ih =>
    rw [byNumber_concat, (ascending_byNumber vs).latest_insert, ih, latest_append, latest, latest,
      Option.none_or]
    split <;> rfl

/-- Values with the same last value for each number are ordered alike. -/
theorem byNumber_eq (h : ∀ n, latest n vs = latest n ws) : byNumber vs = byNumber ws :=
  (ascending_byNumber vs).eq_of_latest (ascending_byNumber ws) fun n ↦ by
  rw [latest_byNumber, latest_byNumber, h]

/-- Unions of enumerations can be made in any grouping. -/
theorem union_assoc (a b c : Option (List EnumValue)) :
    union (union a b) c = union a (union b c) := by
  cases a with
  | none => rfl
  | some as =>
    cases b with
    | none => rfl
    | some bs =>
      cases c with
      | none => rfl
      | some cs =>
        refine congrArg some (byNumber_eq fun n ↦ ?_)
        rw [latest_append, latest_append, latest_byNumber, latest_byNumber, latest_append,
          latest_append, Option.or_assoc]

end EnumValue

/-! ### Attributes -/

theorem NameSet.has_union (s t : NameSet) (n : String) :
    (s.union t).has n = (s.has n || t.has n) := by
  rw [Bool.eq_iff_iff, Bool.or_eq_true, has_iff, has_iff, has_iff, mem_union]

theorem NameSet.union_assoc (s t u : NameSet) : (s.union t).union u = s.union (t.union u) :=
  ext_mem fun n ↦ by rw [mem_union, mem_union, mem_union, mem_union, or_assoc]

theorem Json.orElse_assoc (u v w : Json) : (u.orElse v).orElse w = u.orElse (v.orElse w) := by
  cases hu : u.isGiven <;> simp [orElse, hu]

namespace Attribute

/-- Refinements can be made in any grouping. -/
theorem refine_assoc (a b c : Attribute) : (a.refine b).refine c = a.refine (b.refine c) := by
  -- a detail is that of the nearest which gives it, whichever two are merged first
  have hdetail {α : Type} (given given' : Bool) (x y z : α) :
      (if given' then z else if given then y else x) = if given || given' then if given' then z
      else y else x := by
    cases given <;> cases given' <;> rfl
  simp only [refine, NameSet.has_union, EnumValue.union_assoc, NameSet.union_assoc,
    Json.orElse_assoc, hdetail]

instance : Std.Associative refine := ⟨refine_assoc⟩

/-- What some attributes come to may stand for them behind others. -/
theorem joined_append_joined (as bs : List Attribute) :
    joined (as ++ (joined bs).toList) = joined (as ++ bs) := by
  cases bs with
  | nil => rfl
  | cons b bs =>
    rw [joined, Option.toList_some]
    cases as with
    | nil => rfl
    | cons a as =>
      rw [List.cons_append, List.cons_append, joined, joined, List.foldl_append, List.foldl_append,
        List.foldl_cons, List.foldl_nil, List.foldl_cons, List.foldl_assoc]

end Attribute

open Attribute

/-! ### Lineages -/

variable {t : Table Attribute} {d d' : Definition} {chain : List Definition}

/-- Refining an attribute adds its name at the end, if that is new. -/
theorem names_refineAttribute (t : Table Attribute) (n : String) (a : Attribute) :
    (refineAttribute t n a).names = t.names ++ [n].removeAll t.names := by
  have hput (a : Attribute) : (t.put n a).names = t.names ++ [n].removeAll t.names := by
    rw [Table.names_put, List.removeAll, List.filter_singleton]
    split
    · next hn => simp [hn]
    · next hn => simp [hn]
  rw [refineAttribute]
  split <;> exact hput _

/-- The names of a definition that are new come behind those of its ancestors. -/
theorem names_refineAttributes (t : Table Attribute) (d : Definition) :
    (refineAttributes t d).names = t.names ++ d.attributes.names.removeAll t.names := by
  have hfold (es : Entries Attribute) (hes : es.names.Nodup) (t : Table Attribute) :
      (List.foldl (fun t e ↦ refineAttribute t e.1 e.2) t es).names =
        t.names ++ es.names.removeAll t.names := by
    induction es generalizing t with
    | nil => exact (List.append_nil _).symm
    | cons e es ih =>
      obtain ⟨hfresh, hes⟩ := List.nodup_cons.1 hes
      have hrest :
          (Entries.names es).removeAll (t.names ++ [e.1].removeAll t.names) =
            (Entries.names es).removeAll t.names := by
        refine List.filter_congr fun n hn ↦ ?_
        have hne : n ≠ e.1 := fun heq ↦ hfresh (heq ▸ hn)
        simp [List.removeAll, hne]
      rw [List.foldl_cons, ih hes, names_refineAttribute, hrest, List.append_assoc]
      congr 1
      exact (List.filter_append ..).symm
  exact hfold d.attributes.entries d.attributes.nodup t

/-- Two definitions can be merged before they are put among the attributes of their ancestors. -/
theorem refineAttributes_assoc (t : Table Attribute) (d d' e : Definition) :
    refineAttributes (refineAttributes t d) d' =
      refineAttributes t { e with attributes := refineAttributes d.attributes d' } := by
  refine Table.eq_of_names ?_ fun key ↦ ?_
  · simp only [names_refineAttributes, List.removeAll, List.filter_append, List.filter_filter,
      List.append_assoc]
    congr 2
    refine List.filter_congr fun n _ ↦ ?_
    by_cases hn : n ∈ t.names <;> simp [hn]
  · rw [get?_refineAttributes, get?_refineAttributes, get?_refineAttributes, get?_refineAttributes,
      joined_joined_append, joined_append_joined, List.append_assoc]

/-- The last member of a lineage is put among what the others come to. -/
theorem lineageAttributes_concat (chain : List Definition) (d : Definition) :
    lineageAttributes (chain ++ [d]) = refineAttributes (lineageAttributes chain) d :=
  List.foldl_concat ..

/-- A lineage can be cut anywhere, and what follows merged on its own. -/
theorem lineageAttributes_append (above group : List Definition) (d : Definition) :
    lineageAttributes (above ++ group) =
      refineAttributes (lineageAttributes above)
        { d with attributes := lineageAttributes group } := by
  induction group using List.reverseRecOn with
  | nil => rw [List.append_nil]; rfl
  | append_singleton group e ih =>
    rw [← List.append_assoc, lineageAttributes_concat, lineageAttributes_concat, ih,
      refineAttributes_assoc _ _ _ d]

/-- **Merging is associative.** Unions of enumerations and refinements of attributes can be made in
any grouping. So a lineage comes to the same attributes, in the same order, if some adjacent members
of it are merged beforehand into one definition. -/
theorem merging_associative :
    (∀ a b c, EnumValue.union (EnumValue.union a b) c = EnumValue.union a (EnumValue.union b c)) ∧
    (∀ a b c : Attribute, (a.refine b).refine c = a.refine (b.refine c)) ∧
    ∀ (above group below : List Definition) (d : Definition),
      lineageAttributes (above ++ group ++ below) =
        lineageAttributes (above ++ { d with attributes := lineageAttributes group } :: below) := by
  refine ⟨EnumValue.union_assoc, refine_assoc, fun above group below d ↦ ?_⟩
  have hbelow (chain below : List Definition) :
      lineageAttributes (chain ++ below) = below.foldl refineAttributes (lineageAttributes chain) :=
    List.foldl_append ..
  rw [hbelow, lineageAttributes_append above group d, hbelow, List.foldl_cons]

end EventSchema
