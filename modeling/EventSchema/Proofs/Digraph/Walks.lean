import EventSchema.Digraph.Basic
import Mathlib.Data.Fintype.Card
import Mathlib.Data.Set.Finite.List
import Mathlib.Logic.Relation
import Mathlib.Order.WellFounded

/-!
# Walks and cycles

The relational reading of a directed graph: one edge, walks of any length, and the absence of
directed cycles. The traversals of `Digraph.Basic` are measured against it elsewhere; nothing here
runs.

Two facts carry what follows. `exists_first_of_noCycle` finds, in any nonempty finite list, an
element that nothing in the list leads to when there are no cycles; both the placing of nodes and
the placing of objects in order rest on it. `Acyclic.of_extra_edge` says when one more edge keeps a
graph free of cycles: when there was no way back along it.
-/

namespace EventSchema

open Relation

universe u

/-! ### Relations without cycles on finite lists -/

section NoCycle

variable {α : Type u} {r : α → α → Prop}

/-- Where no element comes back to itself, every nonempty list has an element that no other element
of the list is related to. -/
theorem exists_first_of_noCycle (h : ∀ v, ¬ TransGen r v v) {vs : List α} (hvs : vs ≠ []) :
    ∃ v ∈ vs, ∀ u ∈ vs, ¬ r u v := by
  let below : {v // v ∈ vs} → {v // v ∈ vs} → Prop := fun u v ↦ TransGen r u.1 v.1
  have : Finite {v // v ∈ vs} := List.finite_toSet vs
  have : IsTrans _ below := ⟨fun _ _ _ hab hbc ↦ TransGen.trans hab hbc⟩
  have : Std.Irrefl below := ⟨fun v hv ↦ h v.1 hv⟩
  obtain ⟨v, hv⟩ := List.exists_mem_of_ne_nil vs hvs
  obtain ⟨m, -, hm⟩ :=
    (Finite.wellFounded_of_trans_of_irrefl below).has_min Set.univ ⟨⟨v, hv⟩, trivial⟩
  exact ⟨m.1, m.2, fun u hu hum ↦ hm ⟨u, hu⟩ trivial (TransGen.single hum)⟩

/-- The dual: an element that is related to no other element of the list. -/
theorem exists_last_of_noCycle (h : ∀ v, ¬ TransGen r v v) {vs : List α} (hvs : vs ≠ []) :
    ∃ v ∈ vs, ∀ w ∈ vs, ¬ r v w :=
  exists_first_of_noCycle (r := Function.swap r) (fun v hv ↦ h v (transGen_swap.1 hv)) hvs

/-- An element on a cycle is related to an element on a cycle, and back. -/
theorem exists_pred_on_cycle {v : α} (h : TransGen r v v) : ∃ u, r u v ∧ TransGen r u u := by
  obtain ⟨u, hvu, huv⟩ := TransGen.tail'_iff.1 h
  exact ⟨u, huv, TransGen.head' huv hvu⟩

end NoCycle

namespace Digraph

/-! ### Edges, walks and cycles -/

/-- There is an edge from one node to another. -/
def Edge (g : Digraph) (v w : String) : Prop := (v, w) ∈ g.edges

instance (g : Digraph) (v w : String) : Decidable (g.Edge v w) :=
  inferInstanceAs (Decidable ((v, w) ∈ g.edges))

/-- There is a walk of zero or more edges from one node to another. -/
def Reaches (g : Digraph) : String → String → Prop := ReflTransGen g.Edge

/-- No walk of one or more edges comes back to its start. -/
def Acyclic (g : Digraph) : Prop := ∀ v, ¬ TransGen g.Edge v v

variable {g h : Digraph} {u v w : String}

theorem Reaches.refl (g : Digraph) (v : String) : g.Reaches v v := ReflTransGen.refl

theorem Reaches.trans (huv : g.Reaches u v) (hvw : g.Reaches v w) : g.Reaches u w :=
  ReflTransGen.trans huv hvw

theorem Reaches.single (hvw : g.Edge v w) : g.Reaches v w := ReflTransGen.single hvw

theorem Reaches.head (huv : g.Edge u v) (hvw : g.Reaches v w) : g.Reaches u w :=
  ReflTransGen.head huv hvw

theorem Reaches.tail (huv : g.Reaches u v) (hvw : g.Edge v w) : g.Reaches u w :=
  ReflTransGen.tail huv hvw

/-- Walks stay where edges are added. -/
theorem Reaches.mono (hgh : ∀ v w, g.Edge v w → h.Edge v w) (hvw : g.Reaches v w) :
    h.Reaches v w := ReflTransGen.mono hgh _ _ hvw

/-- Two nodes reach each other. -/
def Mutual (g : Digraph) (v w : String) : Prop := g.Reaches v w ∧ g.Reaches w v

theorem Mutual.symm (h : g.Mutual v w) : g.Mutual w v := ⟨h.2, h.1⟩

theorem Mutual.trans (huv : g.Mutual u v) (hvw : g.Mutual v w) : g.Mutual u w :=
  ⟨huv.1.trans hvw.1, hvw.2.trans huv.2⟩

/-- An edge whose end reaches its start closes a cycle. -/
theorem not_acyclic_of_edge (hvw : g.Edge v w) (hwv : g.Reaches w v) : ¬ g.Acyclic :=
  fun hg ↦ hg v (TransGen.head' hvw hwv)

/-- Every node on a walk of at least one edge is the end of an edge. -/
theorem edge_of_transGen (hvw : TransGen g.Edge v w) : ∃ u, g.Edge v u ∧ g.Reaches u w :=
  TransGen.head'_iff.1 hvw

/-! ### One more edge -/

/-- A walk in a graph with one more edge either does without this edge, or goes to its start and on
from its end. -/
theorem transGen_of_extra_edge {a b : String}
    (hgh : ∀ v w, h.Edge v w → g.Edge v w ∨ v = a ∧ w = b) (hvw : TransGen h.Edge v w) :
    TransGen g.Edge v w ∨ g.Reaches v a ∧ g.Reaches b w := by
  induction hvw with
  | single hvw =>
    rcases hgh _ _ hvw with hvw | ⟨rfl, rfl⟩
    · exact .inl (TransGen.single hvw)
    · exact .inr ⟨.refl g _, .refl g _⟩
  | tail _ hwx ih =>
    rcases hgh _ _ hwx with hwx | ⟨rfl, rfl⟩
    · rcases ih with ih | ⟨hva, hbw⟩
      · exact .inl (ih.tail hwx)
      · exact .inr ⟨hva, hbw.tail hwx⟩
    · rcases ih with ih | ⟨hva, -⟩
      · exact .inr ⟨ih.to_reflTransGen, .refl g _⟩
      · exact .inr ⟨hva, .refl g _⟩

/-- One more edge keeps a graph free of cycles if its end does not reach its start. -/
theorem Acyclic.of_extra_edge {a b : String} (hg : g.Acyclic)
    (hgh : ∀ v w, h.Edge v w → g.Edge v w ∨ v = a ∧ w = b) (hba : ¬ g.Reaches b a) :
    h.Acyclic := by
  intro v hv
  rcases transGen_of_extra_edge hgh hv with hv | ⟨hva, hbv⟩
  · exact hg v hv
  · exact hba (hbv.trans hva)

/-! ### Nodes and edges as the traversals see them -/

/-- The vertices are the nodes and all ends of edges. -/
theorem mem_vertices : v ∈ g.vertices ↔ v ∈ g.nodes ∨ ∃ w, g.Edge v w ∨ g.Edge w v := by
  rw [vertices, ← NameSet.mem_def, NameSet.mem_ofList, List.mem_append, List.mem_flatMap]
  refine or_congr Iff.rfl ?_
  constructor
  · rintro ⟨⟨a, b⟩, hab, hv⟩
    rcases List.mem_pair.1 hv with rfl | rfl
    · exact ⟨b, .inl hab⟩
    · exact ⟨a, .inr hab⟩
  · rintro ⟨w, hvw | hwv⟩
    · exact ⟨(v, w), hvw, by simp⟩
    · exact ⟨(w, v), hwv, by simp⟩

theorem Edge.source_mem (hvw : g.Edge v w) : v ∈ g.vertices := mem_vertices.2 (.inr ⟨w, .inl hvw⟩)

theorem Edge.target_mem (hvw : g.Edge v w) : w ∈ g.vertices := mem_vertices.2 (.inr ⟨v, .inr hvw⟩)

theorem mem_successors : w ∈ g.successors v ↔ g.Edge v w := by
  rw [successors, ← NameSet.mem_def, NameSet.mem_ofList, List.mem_map]
  constructor
  · rintro ⟨⟨a, b⟩, hab, rfl⟩
    obtain ⟨hab, hav⟩ := List.mem_filter.1 hab
    have hav : a = v := of_decide_eq_true hav
    exact hav ▸ hab
  · intro hvw
    exact ⟨(v, w), List.mem_filter.2 ⟨hvw, by simp⟩, rfl⟩

/-- The edges that are left are those that were not removed. -/
theorem edge_without {removed : List (String × String)} :
    (g.without removed).Edge v w ↔ g.Edge v w ∧ (v, w) ∉ removed := by
  simp [Edge, without]

end Digraph

end EventSchema
