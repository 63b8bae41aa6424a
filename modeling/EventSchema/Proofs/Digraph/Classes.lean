import EventSchema.Proofs.Digraph.Components

/-!
# Components and cycles

An edge with both ends in a component is there exactly when the component has a cycle
(`isCyclicComponent_iff`), and a directed cycle never leaves its component (`transGen_inside`). So
`Digraph.cycles` is empty exactly for graphs without directed cycles (`cycles_eq_nil_iff`).
-/

namespace EventSchema.Digraph

open Relation

variable {g : Digraph} {v w x : String} {c d : List String}

/-! ### Cycles and components -/

/-- An edge on a directed cycle has both ends in one component. -/
theorem Mutual.of_cycle (hvw : g.Edge v w) (hwv : g.Reaches w v) : g.Mutual v w :=
  ⟨.single hvw, hwv⟩

/-- A walk along edges that can be walked back stays in the component of its start. -/
theorem transGen_inside {r : String → String → Prop} (hr : ∀ a b, r a b → g.Edge a b)
    (hc : c ∈ g.components) (hv : v ∈ c) (hvw : TransGen r v w) (hwv : g.Reaches w v) :
    TransGen (fun a b ↦ r a b ∧ a ∈ c ∧ b ∈ c) v w := by
  induction hvw with
  | single hvx =>
    exact TransGen.single ⟨hvx, hv, (mem_component_iff hc hv).2 (.of_cycle (hr _ _ hvx) hwv)⟩
  | @tail x y hvx hxy ih =>
    have hxv : g.Reaches x v := Reaches.head (hr _ _ hxy) hwv
    have hvx' : g.Reaches v x := ReflTransGen.mono hr _ _ hvx.to_reflTransGen
    exact (ih hxv).tail ⟨hxy, (mem_component_iff hc hv).2 ⟨hvx', hxv⟩,
      (mem_component_iff hc hv).2 ⟨hvx'.tail (hr _ _ hxy), hwv⟩⟩

/-- A component has a cycle exactly when it has an edge inside. -/
theorem isCyclicComponent_iff (hc : c ∈ g.components) :
    g.isCyclicComponent c = true ↔ ∃ v ∈ c, ∃ w ∈ c, g.Edge v w := by
  match c, exists_mem_of_mem_components hc, nodup_component hc, hc with
  | [v], _, _, _ => simp [isCyclicComponent, Edge]
  | v :: u :: rest, _, hnodup, hc =>
    refine ⟨fun _ ↦ ?_, fun _ ↦ by simp [isCyclicComponent]⟩
    have hv : v ∈ v :: u :: rest := List.mem_cons_self
    have hu : u ∈ v :: u :: rest := List.mem_cons_of_mem _ List.mem_cons_self
    have hvu : g.Mutual v u := (mem_component_iff hc hv).1 hu
    -- the first edge of a walk from `v` to the other node stays inside
    rcases ReflTransGen.cases_head hvu.1 with rfl | ⟨x, hvx, hxu⟩
    · simp at hnodup
    · exact ⟨v, hv, x, (mem_component_iff hc hv).2
        (.of_cycle hvx (Reaches.trans hxu hvu.2)), hvx⟩

/-- A graph has no component with a cycle exactly when it has no directed cycle. -/
theorem cycles_eq_nil_iff : g.cycles = [] ↔ g.Acyclic := by
  rw [cycles, List.filter_eq_nil_iff]
  constructor
  · intro h v hv
    obtain ⟨w, hvw, hwv⟩ := edge_of_transGen hv
    obtain ⟨c, hc, hvc⟩ := exists_component_of_mem hvw.source_mem
    exact h c hc ((isCyclicComponent_iff hc).2
      ⟨v, hvc, w, (mem_component_iff hc hvc).2 (.of_cycle hvw hwv), hvw⟩)
  · intro hg c hc hcyc
    obtain ⟨v, hv, w, hw, hvw⟩ := (isCyclicComponent_iff hc).1 hcyc
    exact not_acyclic_of_edge hvw ((mem_component_iff hc hv).1 hw).2 hg

end EventSchema.Digraph
