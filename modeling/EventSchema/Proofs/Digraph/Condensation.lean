import EventSchema.Proofs.Digraph.Components

/-!
# The list of components

`Digraph.components` lists the classes of nodes that reach each other, in an order against the edges
(`condenses_self`). Nodes and successors are taken as ascending sets, so the list depends on the
sets of nodes and edges alone (`components_congr`).
-/

namespace EventSchema.Digraph

variable {g h : Digraph}

/-! ### Nodes and edges as sets -/

theorem ofList_congr {as bs : List String} (h : ∀ n, n ∈ as ↔ n ∈ bs) :
    NameSet.ofList as = NameSet.ofList bs :=
  NameSet.ext_mem fun n ↦ by rw [NameSet.mem_ofList, NameSet.mem_ofList, h]

theorem vertices_congr (hnodes : ∀ v, v ∈ g.nodes ↔ v ∈ h.nodes)
    (hedges : ∀ e, e ∈ g.edges ↔ e ∈ h.edges) :
    g.vertices = h.vertices := by
  refine congrArg NameSet.toList (ofList_congr fun v ↦ ?_)
  simp only [List.mem_append, List.mem_flatMap, hnodes, hedges]

theorem successors_congr (hedges : ∀ e, e ∈ g.edges ↔ e ∈ h.edges) :
    g.successors = h.successors := by
  funext v
  refine congrArg NameSet.toList (ofList_congr fun w ↦ ?_)
  simp only [List.mem_map, List.mem_filter, hedges]

/-- The components depend on the sets of nodes and edges alone. -/
theorem components_congr (hnodes : ∀ v, v ∈ g.nodes ↔ v ∈ h.nodes)
    (hedges : ∀ e, e ∈ g.edges ↔ e ∈ h.edges) :
    g.components = h.components := by
  rw [components, components, vertices_congr hnodes hedges, successors_congr hedges]

/-! ### The list of components -/

/-- A list of lists is the condensation of a graph, last part first: it holds each node once, the
nodes that reach each other together and ascending, and every edge stays in its part or leads to an
earlier one. -/
structure Condenses (g : Digraph) (parts : List (List String)) : Prop where
  /-- Nothing is listed twice. -/
  nodup : parts.flatten.Nodup
  /-- What is listed are the nodes, the ends of edges among them. -/
  mem_flatten : ∀ v, v ∈ parts.flatten ↔ v ∈ g.nodes ∨ ∃ w, g.Edge v w ∨ g.Edge w v
  /-- No part is empty. -/
  ne_nil : ∀ c ∈ parts, c ≠ []
  /-- Two nodes are in one part exactly if each reaches the other. -/
  shared_iff : ∀ v ∈ parts.flatten, ∀ w ∈ parts.flatten,
    (∃ c ∈ parts, v ∈ c ∧ w ∈ c) ↔ g.Reaches v w ∧ g.Reaches w v
  /-- Every part ascends. -/
  ascending : ∀ c ∈ parts, c.Pairwise (· < ·)
  /-- An edge between two parts leads to the earlier. -/
  earlier : ∀ (i j : Nat) (c d : List String), parts[i]? = some c → parts[j]? = some d →
    ∀ v ∈ c, ∀ w ∈ d, g.Edge v w → i ≠ j → j < i

theorem nodup_flatten_components (g : Digraph) : g.components.flatten.Nodup := by
  refine List.nodup_flatten.2 ⟨fun c hc ↦ nodup_component hc,
    (pairwise_components g).imp fun {c d} hcd ↦ ?_⟩
  exact fun v hvc hvd ↦ hcd v hvc v hvd (.refl g v)

theorem condenses_self (g : Digraph) : Condenses g g.components where
  nodup := nodup_flatten_components g
  mem_flatten v := mem_flatten_components.trans mem_vertices
  ne_nil c hc := (isComponent_of_mem hc).ne_nil
  shared_iff v hv w _ := by
    constructor
    · rintro ⟨c, hc, hvc, hwc⟩
      exact (mem_component_iff hc hvc).1 hwc
    · intro hvw
      obtain ⟨c, hc, hvc⟩ := exists_component_of_mem (mem_flatten_components.1 hv)
      exact ⟨c, hc, hvc, (mem_component_iff hc hvc).2 hvw⟩
  ascending c hc := (isComponent_of_mem hc).ascending
  earlier i j c d hi hj v hv w hw hvw hij := by
    obtain ⟨hilt, rfl⟩ := List.getElem?_eq_some_iff.1 hi
    obtain ⟨hjlt, rfl⟩ := List.getElem?_eq_some_iff.1 hj
    refine Nat.lt_of_le_of_ne (Nat.le_of_not_lt fun hlt ↦ ?_) (Ne.symm hij)
    exact List.pairwise_iff_getElem.1
      (pairwise_components g) i j hilt hjlt hlt v hv w hw (.single hvw)

/-- **Strongly connected components.** Whatever nodes and edges are given, the components are the
classes of nodes that reach each other, in an order against the edges, and rearranging nodes and
edges changes nothing. -/
theorem condenses_components (nodes : List String) (edges : List (String × String)) :
    Condenses ⟨nodes, edges⟩ (components ⟨nodes, edges⟩) ∧
      ∀ nodes' edges', nodes'.Perm nodes → edges'.Perm edges →
        components ⟨nodes', edges'⟩ = components ⟨nodes, edges⟩ :=
  ⟨condenses_self _, fun _ _ hnodes hedges ↦
    components_congr (fun _ ↦ hnodes.mem_iff) fun _ ↦ hedges.mem_iff⟩

/-- Two nodes that lead to each other go together, behind what they lead to; a name that is only the
end of an edge counts as a node. -/
example : components ⟨["b", "a", "a"], [("a", "b"), ("b", "a"), ("b", "c"), ("c", "c")]⟩ =
    [["c"], ["a", "b"]] := by
  decide +kernel

end EventSchema.Digraph
