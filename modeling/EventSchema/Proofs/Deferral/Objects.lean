import EventSchema.Proofs.Deferral.Inside

/-!
# The references of objects

What `ReferenceGraph.ofObjects` makes of objects: for each object and each target, the attributes of
the object that refer to the target (`mem_references_ofObjects`). An object has a reference to each
of the names that `Entity.references` lists, so a graph is closed if these names are objects
(`closed_ofObjects`).
-/

namespace EventSchema

/-! ### References with their attributes -/

namespace ReferenceGraph

variable {objects : Table Entity} {r : Reference} {v : String}

/-- Whether an attribute refers to an object. -/
def refersTo (target : String) (a : Attribute) : Bool := a.target? == some target

theorem get?_addReference (t : Table (List Attribute)) (a : Attribute) (n : String) :
    (addReference t a).get? n =
      if refersTo n a then some ((t.get? n).getD [] ++ [a]) else t.get? n := by
  rw [addReference, refersTo]
  rcases ha : a.target? with _ | target
  · simp
  · by_cases hn : target = n
    · subst hn
      simp [Table.get?_put]
    · simp [Table.get?_put, hn]

/-- What comes of adding attributes: those that refer to a name are listed behind what stands
there. -/
theorem get?_foldl_addReference (attributes : List Attribute) (t : Table (List Attribute))
    (n : String) :
    (attributes.foldl addReference t).get? n =
      if attributes.filter (refersTo n) = [] then t.get? n
      else some ((t.get? n).getD [] ++ attributes.filter (refersTo n)) := by
  induction attributes generalizing t with
  | nil => simp
  | cons a attributes ih =>
    rw [List.foldl_cons, ih, get?_addReference, List.filter_cons]
    by_cases ha : refersTo n a = true
    · by_cases hrest : attributes.filter (refersTo n) = [] <;> simp [ha, hrest]
    · simp [ha]

theorem get?_referencesOf {e : Entity} {attributes : List Attribute} {n : String} :
    (referencesOf e).get? n = some attributes ↔
      attributes = e.attributes.values.filter (refersTo n) ∧ attributes ≠ [] := by
  rw [referencesOf, Table.get?_sorted, get?_foldl_addReference, Table.get?_empty]
  by_cases h : e.attributes.values.filter (refersTo n) = []
  · rw [if_pos h, h]
    simp
  · rw [if_neg h, Option.some_inj]
    simp only [Option.getD_none, List.nil_append]
    constructor
    · rintro rfl
      exact ⟨rfl, h⟩
    · rintro ⟨rfl, -⟩
      rfl

/-- The references of objects: to each target, all attributes of an object that refer to it. -/
theorem mem_references_ofObjects :
    r ∈ (ofObjects objects).references ↔ ∃ e, objects.get? r.source = some e ∧
      r.attributes = e.attributes.values.filter (refersTo r.target) ∧ r.attributes ≠ [] := by
  rw [mem_references]
  simp only [ofObjects, Table.get?_sorted, Table.get?_map, Option.map_eq_some_iff]
  constructor
  · rintro ⟨t, ⟨e, he, rfl⟩, ht⟩
    exact ⟨e, he, get?_referencesOf.1 ht⟩
  · rintro ⟨e, he, ht⟩
    exact ⟨_, ⟨e, he, rfl⟩, get?_referencesOf.2 ht⟩

/-- The graph of objects in ascending order has them in this order. -/
theorem ofObjects_of_ascending (h : objects.entries.Pairwise fun a b ↦ a.1 ≤ b.1) :
    ofObjects objects = ⟨objects.map referencesOf⟩ :=
  congrArg ReferenceGraph.mk (Table.sorted_eq_self (List.pairwise_map.2 h))

theorem mem_nodes_ofObjects : v ∈ (ofObjects objects).nodes ↔ v ∈ objects.names := by
  rw [nodes, Table.mem_names_iff, Table.mem_names_iff]
  simp [ofObjects]

end ReferenceGraph

/-! ### Referenced names -/

/-- Listing the different names of a list leaves none out. -/
theorem mem_foldl_different {found names : List String} {n : String} :
    n ∈ names.foldl (fun found name ↦ if found.contains name then found
      else found ++ [name]) found ↔ n ∈ found ∨ n ∈ names := by
  induction names generalizing found with
  | nil => simp
  | cons name names ih =>
    rw [List.foldl_cons, ih, List.mem_cons]
    by_cases h : name ∈ found
    · rw [if_pos (List.contains_iff_mem.2 h)]
      constructor
      · exact Or.imp_right .inr
      · rintro (hn | rfl | hn)
        exacts [.inl hn, .inl h, .inr hn]
    · rw [if_neg (mt List.contains_iff_mem.1 h), List.mem_append, List.mem_singleton, or_assoc]

theorem Entity.mem_references {e : Entity} {object : String} :
    object ∈ e.references ↔ ∃ a ∈ e.attributes.values, a.target? = some object := by
  rw [references, mem_foldl_different, or_iff_right List.not_mem_nil, List.mem_filterMap]

namespace ReferenceGraph

variable {objects : Table Entity}

/-- Each object has a reference to what it refers to. -/
theorem exists_mem_references {n object : String} :
    (∃ r ∈ (ofObjects objects).references, r.pair = (n, object)) ↔
      ∃ e, objects.get? n = some e ∧ object ∈ e.references := by
  have hfilter : ∀ e : Entity, object ∈ e.references ↔
      e.attributes.values.filter (refersTo object) ≠ [] := fun e ↦ by
    simp [Entity.mem_references, refersTo]
  simp only [mem_references_ofObjects, hfilter]
  constructor
  · rintro ⟨⟨source, target, attributes⟩, ⟨e, he, hattributes, hne⟩, hp⟩
    cases hp
    exact ⟨e, he, hattributes ▸ hne⟩
  · rintro ⟨e, he, hne⟩
    exact ⟨⟨n, object, _⟩, ⟨e, he, rfl, hne⟩, rfl⟩

/-- Objects that refer to objects have a graph whose references lead to its objects. -/
theorem closed_ofObjects
    (h : ∀ n e, objects.get? n = some e → ∀ o ∈ e.references, o ∈ objects.names) :
    (ofObjects objects).Closed := by
  intro r hr
  obtain ⟨e, he, hmem⟩ := exists_mem_references.1 ⟨r, hr, rfl⟩
  exact mem_nodes_ofObjects.2 (h _ e he _ hmem)

end ReferenceGraph

end EventSchema
