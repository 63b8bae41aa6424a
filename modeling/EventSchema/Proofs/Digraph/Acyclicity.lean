import EventSchema.Digraph.Acyclicity
import EventSchema.Proofs.Digraph.Classes
import EventSchema.Proofs.Tables
import Mathlib.Data.List.Count
import Mathlib.Tactic.Tauto

/-!
# Placing nodes decides acyclicity

`Digraph.isAcyclic` places nodes whose edges all come from placed nodes. What holds between two
steps is `Placing.Sound`: the count of a node is the number of edges to it from nodes without a
place, the ready nodes are those without a place and without a count, and no placed node is on a
directed cycle. Taking back one edge after another keeps this (`Sound.foldl_lower`), so placing a
node does (`Sound.place`), and so does a run (`exists_sound_run`), which ends with no ready node.
Then every node without a place has an edge from another one, so there are none exactly when the
graph has no directed cycle (`isAcyclic_iff`).

Together with the components of a graph this gives two tests for directed cycles that agree
(`isAcyclic_decides`).
-/

namespace EventSchema.Digraph

open Relation

variable {g : Digraph} {u v w : String} {done rest : List String}

/-! ### Counting edges -/

theorem nodup_vertices (g : Digraph) : g.vertices.Nodup := by
  refine (NameSet.ascending _).imp ?_
  rintro v w hvw rfl
  exact String.lt_irrefl v hvw

theorem mem_targets : w ∈ g.targets v ↔ g.Edge v w := by
  simp [targets, Edge]

/-- The number of edges to a node from nodes without a place. -/
def waitingFor (g : Digraph) (done : List String) (w : String) : Nat :=
  g.edges.countP fun e ↦ decide (e.2 = w ∧ e.1 ∉ done)

theorem waitingFor_eq_zero_iff : g.waitingFor done w = 0 ↔ ∀ u, g.Edge u w → u ∈ done := by
  rw [waitingFor, List.countP_eq_zero]
  constructor
  · intro h u huw
    by_contra hu
    exact h (u, w) huw (decide_eq_true ⟨rfl, hu⟩)
  · rintro h ⟨u, x⟩ hux htrue
    obtain ⟨rfl, hu⟩ := of_decide_eq_true htrue
    exact hu (h u hux)

theorem count_targets (g : Digraph) (v w : String) :
    (g.targets v).count w = g.edges.countP fun e ↦ decide (e.2 = w ∧ e.1 = v) := by
  rw [targets, List.count_eq_countP, List.countP_map, List.countP_filter]
  exact List.countP_congr fun e _ ↦ by simp

/-- Placing a node takes back the edges from it, each as often as it is given. -/
theorem waitingFor_eq_add (hv : v ∉ done) (w : String) :
    g.waitingFor done w = g.waitingFor (v :: done) w + (g.targets v).count w := by
  rw [waitingFor, List.countP_eq_countP_filter_add g.edges _ (fun e ↦ decide (e.1 = v)),
    Nat.add_comm, waitingFor, count_targets, List.countP_filter, List.countP_filter]
  congr 1
  · refine List.countP_congr fun e _ ↦ ?_
    simp only [Bool.and_eq_true, decide_eq_true_eq, Bool.not_eq_true', decide_eq_false_iff_not,
      List.mem_cons, not_or]
    tauto
  · refine List.countP_congr fun e _ ↦ ?_
    simp only [Bool.and_eq_true, decide_eq_true_eq]
    exact ⟨fun h ↦ ⟨h.1.1, h.2⟩, fun h ↦ ⟨⟨h.1, h.2 ▸ hv⟩, h.2⟩⟩

namespace Placing

variable {s : Placing}

/-- The count of a node. -/
def countOf (s : Placing) (w : String) : Nat := (s.counts.get? w).getD 0

theorem countOf_lower (s : Placing) (w x : String) :
    (s.lower w).countOf x = if w = x then s.countOf w - 1 else s.countOf x := by
  rw [countOf, lower, Table.get?_put]
  split <;> rfl

theorem ready_lower (s : Placing) (w : String) :
    (s.lower w).ready = if s.countOf w - 1 = 0 then w :: s.ready else s.ready := rfl

theorem get?_foldl_countEdge (edges : List (String × String)) (counts : Table Nat) (w : String) :
    ((edges.foldl countEdge counts).get? w).getD 0 =
      (counts.get? w).getD 0 + edges.countP fun e ↦ decide (e.2 = w) := by
  induction edges generalizing counts with
  | nil => rfl
  | cons e edges ih =>
    rw [List.foldl_cons, ih, countEdge, Table.get?_put, List.countP_cons]
    by_cases he : e.2 = w
    · subst he
      simp only [if_true, Option.getD_some, decide_true]
      omega
    · simp [he]

theorem mem_names_foldl_countEdge (edges : List (String × String)) (counts : Table Nat) :
    w ∈ (edges.foldl countEdge counts).names ↔ w ∈ counts.names ∨ ∃ e ∈ edges, e.2 = w := by
  induction edges generalizing counts with
  | nil => simp
  | cons e edges ih =>
    rw [List.foldl_cons, ih, countEdge, Table.mem_names_put, List.exists_mem_cons_iff, or_assoc,
      @eq_comm _ w e.2]

/-- Before any node is placed all edges count. -/
theorem countOf_start (g : Digraph) (w : String) : (start g).countOf w = g.waitingFor [] w := by
  have hzero (vs : List String) : ((Table.ofList (vs.map fun v ↦ (v, 0))).get? w).getD 0 = 0 := by
    cases hget : (Table.ofList (vs.map fun v ↦ (v, 0))).get? w with
    | none => rfl
    | some n =>
      obtain ⟨v, -, hv⟩ := List.mem_map.1 (Table.mem_of_get?_ofList hget)
      exact (Prod.mk.inj hv).2.symm
  rw [countOf, start, countEdges, get?_foldl_countEdge, hzero, Nat.zero_add, waitingFor]
  exact List.countP_congr fun e _ ↦ by simp

/-- The nodes that edges are counted at are the nodes of the graph. -/
theorem perm_names_countEdges (g : Digraph) : (countEdges g).names.Perm g.vertices := by
  refine (List.perm_ext_iff_of_nodup (countEdges g).nodup (nodup_vertices g)).2 fun v ↦ ?_
  refine (mem_names_foldl_countEdge _ _).trans ?_
  have hgiven :
      v ∈ Entries.names ((g.nodes ++ g.edges.flatMap fun e ↦ [e.1, e.2]).map fun v ↦ (v, 0)) ↔
      v ∈ g.vertices := by
    rw [vertices, ← NameSet.mem_def, NameSet.mem_ofList, Entries.names, List.map_map]
    exact iff_of_eq (congrArg (v ∈ ·) (List.map_id _))
  rw [Table.mem_names_ofList, hgiven, or_iff_left_iff_imp]
  rintro ⟨⟨u, w⟩, huw, rfl⟩
  exact Edge.target_mem (v := u) huw

/-! ### What holds while nodes are placed -/

/-- What holds when the nodes of `done` are placed, last one first, and the edges to the nodes of
`rest` are still to be taken back. -/
structure Sound (g : Digraph) (done rest : List String) (s : Placing) : Prop where
  /-- The count of a node is the number of edges to it that are not taken back. -/
  count_eq : ∀ w, s.countOf w = g.waitingFor done w + rest.count w
  /-- The nodes that may be placed are those that have no place and no count. -/
  mem_ready_iff : ∀ w, w ∈ s.ready ↔ w ∈ g.vertices ∧ w ∉ done ∧ s.countOf w = 0
  /-- No node is ready twice. -/
  nodup_ready : s.ready.Nodup
  /-- No node is placed twice. -/
  nodup_done : done.Nodup
  /-- Only nodes are placed. -/
  subset : done ⊆ g.vertices
  /-- A placed node has edges from placed nodes alone. -/
  closed : ∀ v ∈ done, ∀ u, g.Edge u v → u ∈ done
  /-- A placed node is on no directed cycle. -/
  free : ∀ v ∈ done, ¬ TransGen g.Edge v v
  /-- The placed nodes are counted. -/
  placed_eq : s.placed = done.length

theorem sound_start (g : Digraph) : Sound g [] [] (start g) where
  count_eq w := (countOf_start g w).trans (Nat.add_zero _).symm
  mem_ready_iff w := by
    rw [start, List.mem_reverse, ← (perm_names_countEdges g).mem_iff, Table.mem_names_iff, countOf]
    simp only [List.mem_map, List.mem_filter, decide_eq_true_eq]
    constructor
    · rintro ⟨⟨v, n⟩, ⟨hn, rfl⟩, rfl⟩
      have hget : (countEdges g).get? v = some 0 := Table.get?_eq_some_iff.2 hn
      exact ⟨⟨0, hget⟩, List.not_mem_nil, congrArg (Option.getD · 0) hget⟩
    · rintro ⟨⟨n, hn⟩, -, hzero⟩
      rw [hn] at hzero
      exact ⟨(w, n), ⟨Table.get?_eq_some_iff.1 hn, hzero⟩, rfl⟩
  nodup_ready :=
    List.nodup_reverse.2 ((List.filter_sublist.map Prod.fst).nodup (countEdges g).nodup)
  nodup_done := List.nodup_nil
  subset := List.nil_subset _
  closed _ hv := absurd hv List.not_mem_nil
  free _ hv := absurd hv List.not_mem_nil
  placed_eq := rfl

/-- Taking an edge to a node without a place back. -/
theorem Sound.lower (h : Sound g done (w :: rest) s) (hw : w ∈ g.vertices) (hplace : w ∉ done) :
    Sound g done rest (s.lower w) := by
  have hcount : s.countOf w = g.waitingFor done w + rest.count w + 1 := by
    rw [h.count_eq, List.count_cons_self]
    omega
  have hnot : w ∉ s.ready := fun hmem ↦ by
    have := ((h.mem_ready_iff w).1 hmem).2.2
    omega
  refine { h with count_eq := fun x ↦ ?_, mem_ready_iff := fun x ↦ ?_, nodup_ready := ?_ }
  · rw [countOf_lower]
    split
    · next heq =>
      subst heq
      omega
    · next hne => rw [h.count_eq, List.count_cons_of_ne hne]
  · rw [countOf_lower, ready_lower]
    by_cases hx : w = x
    · subst hx
      rw [if_pos rfl]
      split
      · next hzero => exact ⟨fun _ ↦ ⟨hw, hplace, hzero⟩, fun _ ↦ List.mem_cons_self⟩
      · next hpos => exact ⟨fun hmem ↦ absurd hmem hnot, fun hmem ↦ absurd hmem.2.2 hpos⟩
    · rw [if_neg hx, ← h.mem_ready_iff]
      split
      · exact List.mem_cons.trans (or_iff_right fun heq ↦ hx heq.symm)
      · exact Iff.rfl
  · rw [ready_lower]
    split
    · exact List.nodup_cons.2 ⟨hnot, h.nodup_ready⟩
    · exact h.nodup_ready

theorem Sound.foldl_lower (h : Sound g done rest s)
    (hrest : ∀ w ∈ rest, w ∈ g.vertices ∧ w ∉ done) :
    Sound g done [] (rest.foldl Placing.lower s) := by
  induction rest generalizing s with
  | nil => exact h
  | cons w rest ih =>
    obtain ⟨hw, hplace⟩ := hrest w List.mem_cons_self
    exact ih (h.lower hw hplace) fun x hx ↦ hrest x (List.mem_cons_of_mem _ hx)

/-- Placing a ready node. -/
theorem Sound.place (h : Sound g done [] s) (hready : s.ready = v :: rest) :
    Sound g (v :: done) [] (place g { s with ready := rest } v) := by
  obtain ⟨hv, hplace, hzero⟩ := (h.mem_ready_iff v).1 (hready ▸ List.mem_cons_self)
  -- no edge to `v` is left, so all that have edges to it are placed
  have hbefore : ∀ u, g.Edge u v → u ∈ done := by
    rw [h.count_eq, List.count_nil, Nat.add_zero] at hzero
    exact waitingFor_eq_zero_iff.1 hzero
  have hnodup : (v :: rest).Nodup := hready ▸ h.nodup_ready
  have hsound :
      Sound g (v :: done) (g.targets v) { s with ready := rest, placed := s.placed + 1 } := {
    count_eq := fun w ↦ (h.count_eq w).trans (waitingFor_eq_add hplace w)
    mem_ready_iff := fun w ↦ by
      have hmem := h.mem_ready_iff w
      rw [hready, List.mem_cons] at hmem
      rw [List.mem_cons, not_or]
      constructor
      · intro hw
        obtain ⟨hvertex, hdone, hcount⟩ := hmem.1 (.inr hw)
        exact ⟨hvertex, ⟨fun heq ↦ (List.nodup_cons.1 hnodup).1 (heq ▸ hw), hdone⟩, hcount⟩
      · rintro ⟨hvertex, ⟨hne, hdone⟩, hcount⟩
        exact (hmem.2 ⟨hvertex, hdone, hcount⟩).resolve_left hne
    nodup_ready := (List.nodup_cons.1 hnodup).2
    nodup_done := List.nodup_cons.2 ⟨hplace, h.nodup_done⟩
    subset := List.cons_subset.2 ⟨hv, h.subset⟩
    closed := fun w hw u huw ↦ List.mem_cons_of_mem _ (by
      rcases List.mem_cons.1 hw with rfl | hw
      · exact hbefore u huw
      · exact h.closed w hw u huw)
    free := fun w hw hcycle ↦ by
      rcases List.mem_cons.1 hw with rfl | hw
      · obtain ⟨u, huw, hu⟩ := exists_pred_on_cycle hcycle
        exact h.free u (hbefore u huw) hu
      · exact h.free w hw hcycle
    placed_eq := congrArg (· + 1) h.placed_eq }
  refine hsound.foldl_lower fun w hw ↦ ?_
  have hvw : g.Edge v w := mem_targets.1 hw
  refine ⟨hvw.target_mem, fun hmem ↦ hplace ?_⟩
  rcases List.mem_cons.1 hmem with rfl | hmem
  · exact hbefore w hvw
  · exact h.closed w hmem v hvw

/-! ### A whole run -/

/-- If as many nodes are placed as there are, these are all of them. -/
theorem Sound.perm_done (h : Sound g done rest s) (hlength : g.vertices.length ≤ done.length) :
    done.Perm g.vertices :=
  (List.subperm_of_subset h.nodup_done h.subset).perm_of_length_le hlength

/-- Steps for all nodes without a place are enough to come to an end. -/
theorem exists_sound_run {steps : Nat} (h : Sound g done [] s)
    (hsteps : g.vertices.length ≤ done.length + steps) :
    ∃ done', Sound g done' [] (run g steps s) ∧ (run g steps s).ready = [] := by
  induction steps generalizing s done with
  | zero =>
    refine ⟨done, h, List.eq_nil_iff_forall_not_mem.2 fun v hv ↦ ?_⟩
    obtain ⟨hvertex, hplace, -⟩ := (h.mem_ready_iff v).1 hv
    exact hplace ((h.perm_done hsteps).mem_iff.2 hvertex)
  | succ steps ih =>
    rw [run]
    split
    · next hready => exact ⟨done, h, hready⟩
    · next v rest hready =>
      refine ih (h.place hready) ?_
      rw [List.length_cons]
      omega

/-- When no node may be placed and there is no directed cycle, all nodes are placed. -/
theorem Sound.vertices_subset (h : Sound g done [] s) (hready : s.ready = []) (hg : g.Acyclic) :
    g.vertices ⊆ done := by
  by_contra hsubset
  have hleft : g.vertices.filter (fun v ↦ decide (v ∉ done)) ≠ [] :=
    fun hnil ↦ hsubset fun v hv ↦ by
    simpa using List.filter_eq_nil_iff.1 hnil v hv
  obtain ⟨v, hv, hfirst⟩ := exists_first_of_noCycle hg hleft
  obtain ⟨hvertex, hplace⟩ := List.mem_filter.1 hv
  -- the first of the nodes that are left has no count, so it would be ready
  refine List.not_mem_nil (hready ▸ (h.mem_ready_iff v).2 ⟨hvertex, of_decide_eq_true hplace, ?_⟩)
  rw [h.count_eq, List.count_nil, Nat.add_zero, waitingFor_eq_zero_iff]
  intro u huv
  by_contra hu
  exact hfirst u (List.mem_filter.2 ⟨huv.source_mem, decide_eq_true hu⟩) huv

end Placing

/-- All nodes are placed exactly when there is no directed cycle. -/
theorem isAcyclic_iff : g.isAcyclic = true ↔ g.Acyclic := by
  have hsize : (Placing.start g).counts.size = g.vertices.length :=
    (List.length_map _).symm.trans (Placing.perm_names_countEdges g).length_eq
  obtain ⟨done, hsound, hready⟩ :=
    Placing.exists_sound_run (Placing.sound_start g) (Nat.le_add_left g.vertices.length 0)
  rw [isAcyclic, hsize, beq_iff_eq, hsound.placed_eq]
  constructor
  · intro hlength v hcycle
    obtain ⟨u, hvu, -⟩ := edge_of_transGen hcycle
    exact hsound.free v ((hsound.perm_done hlength.ge).mem_iff.2 hvu.source_mem) hcycle
  · intro hg
    refine Nat.le_antisymm (List.subperm_of_subset hsound.nodup_done hsound.subset).length_le ?_
    exact (List.subperm_of_subset (nodup_vertices g) (hsound.vertices_subset hready hg)).length_le

/-- **Two tests for directed cycles.** Whatever nodes and edges are given, edges given repeatedly
and edges from a node to itself among them, all nodes can be placed exactly when no walk along edges
comes back to its start, which is so exactly when no strongly connected component has a cycle; and
rearranging nodes and edges changes nothing. -/
theorem isAcyclic_decides (nodes : List String) (edges : List (String × String)) :
    (isAcyclic ⟨nodes, edges⟩ = true ↔ ∀ v, ¬ TransGen (fun v w ↦ (v, w) ∈ edges) v v) ∧
      ((∀ v, ¬ TransGen (fun v w ↦ (v, w) ∈ edges) v v) ↔
        ∀ c ∈ components ⟨nodes, edges⟩, isCyclicComponent ⟨nodes, edges⟩ c = false) ∧
      ∀ nodes' edges', nodes'.Perm nodes → edges'.Perm edges →
        isAcyclic ⟨nodes', edges'⟩ = isAcyclic ⟨nodes, edges⟩ := by
  refine ⟨isAcyclic_iff, ?_, fun nodes' edges' _ hedges ↦ ?_⟩
  · have hcycles := cycles_eq_nil_iff (g := ⟨nodes, edges⟩)
    rw [cycles, List.filter_eq_nil_iff] at hcycles
    simp only [Bool.not_eq_true] at hcycles
    exact hcycles.symm
  · have hedge : Edge ⟨nodes', edges'⟩ = Edge ⟨nodes, edges⟩ := by
      funext v w
      exact propext hedges.mem_iff
    rw [Bool.eq_iff_iff, isAcyclic_iff, isAcyclic_iff, Acyclic, Acyclic, hedge]

/-- A repeated edge counts twice and is taken back twice; an edge from a node to itself is never
taken back. -/
example : isAcyclic ⟨["b", "a"], [("a", "b"), ("a", "b")]⟩ = true ∧
    isAcyclic ⟨["b", "a"], [("a", "b"), ("b", "b")]⟩ = false := by
  decide +kernel

end EventSchema.Digraph
