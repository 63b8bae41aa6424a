import EventSchema.Digraph.Components
import EventSchema.Proofs.Digraph.Traversal
import EventSchema.Proofs.Tables

/-!
# The search for components

What holds at every moment of a search for components (`Search.Consistent`): what the search came to
and has left leads to nothing new, complete components lead to complete components only, and on the
stack a node that is under way reaches all above it, while every node reaches one that is under way
and does not stand above it.

The low link of a node is a number on the stack that the node leads back to, and no edge of a new
node leads further back (`Search.Connected`). Following one edge after another keeps both
(`Search.Progress.foldl`).
-/

namespace EventSchema.Digraph

variable {g : Digraph} {v w : String}

/-- A list is a component of a graph: it ascends, and it holds all nodes that reach each other with
one of them. -/
structure IsComponent (g : Digraph) (c : List String) : Prop where
  /-- It has a node. -/
  ne_nil : c ≠ []
  /-- It ascends. -/
  ascending : c.Pairwise (· < ·)
  /-- With a node it holds those that reach it and are reached from it. -/
  mem_iff : ∀ v ∈ c, ∀ w, w ∈ c ↔ g.Mutual v w

namespace Search

variable {s s' t : Search} {y : String} {gray followed : List String} {low : Nat}

/-! ### Numbers -/

/-- The search came to a node. -/
def CameTo (s : Search) (v : String) : Prop := v ∈ s.indices.names

/-- The number of a node that the search came to. -/
def index (s : Search) (v : String) : Nat := (s.indices.get? v).getD 0

/-- The number of a node is the one that the search gave it. -/
theorem index_eq_of_get? {i : Nat} (h : s.indices.get? v = some i) : s.index v = i := by
  rw [index, h, Option.getD_some]

/-- The search came to the node that it enters, and to those before. -/
theorem cameTo_enter : (s.enter v).CameTo w ↔ s.CameTo w ∨ w = v := Table.mem_names_put

/-- The node that the search enters has the next number. -/
theorem index_enter (s : Search) (v w : String) :
    (s.enter v).index w = if v = w then s.counter else s.index w := by
  rw [index, enter, Table.get?_put]
  split <;> rfl

/-- A search went on from another: it came to more nodes, and what is new has higher numbers and
stands above what the stack held. -/
structure Extends (s t : Search) : Prop where
  counter_le : s.counter ≤ t.counter
  cameTo : ∀ v, s.CameTo v → t.CameTo v
  index_eq : ∀ v, s.CameTo v → t.index v = s.index v
  le_index : ∀ v, t.CameTo v → ¬ s.CameTo v → s.counter ≤ t.index v
  stack : ∃ new, t.stack = new ++ s.stack ∧ ∀ v ∈ new, ¬ s.CameTo v

namespace Extends

theorem refl (s : Search) : s.Extends s where
  counter_le := Nat.le_refl _
  cameTo _ h := h
  index_eq _ _ := rfl
  le_index _ h hnot := absurd h hnot
  stack := ⟨[], rfl, by simp⟩

theorem trans (h : s.Extends s') (h' : s'.Extends t) : s.Extends t where
  counter_le := Nat.le_trans h.counter_le h'.counter_le
  cameTo v hv := h'.cameTo v (h.cameTo v hv)
  index_eq v hv := (h'.index_eq v (h.cameTo v hv)).trans (h.index_eq v hv)
  le_index v hv hnot := by
    by_cases hs : s'.CameTo v
    · rw [h'.index_eq v hs]
      exact h.le_index v hs hnot
    · exact Nat.le_trans h.counter_le (h'.le_index v hv hs)
  stack := by
    obtain ⟨new, hstack, hnew⟩ := h.stack
    obtain ⟨more, hstack', hmore⟩ := h'.stack
    refine ⟨more ++ new, by rw [hstack', hstack, List.append_assoc], fun v hv hcame ↦ ?_⟩
    rcases List.mem_append.1 hv with hv | hv
    · exact hmore v hv (h.cameTo v hcame)
    · exact hnew v hv hcame

/-- What is on the stack stays there while the search goes on. -/
theorem mem_stack (h : s.Extends t) (hv : v ∈ s.stack) : v ∈ t.stack := by
  obtain ⟨new, hstack, -⟩ := h.stack
  rw [hstack]
  exact List.mem_append_right _ hv

/-- What a search came to before and has on its stack was on the stack before. -/
theorem mem_stack_of_cameTo (h : s.Extends t) (hv : v ∈ t.stack) (hcame : s.CameTo v) :
    v ∈ s.stack := by
  obtain ⟨new, hstack, hnew⟩ := h.stack
  rw [hstack, List.mem_append] at hv
  exact hv.resolve_left fun hv ↦ hnew v hv hcame

/-- A search that enters a new node goes on. -/
theorem enter (hv : ¬ s.CameTo v) : s.Extends (s.enter v) where
  counter_le := Nat.le_succ _
  cameTo _ hw := cameTo_enter.2 (.inl hw)
  index_eq w hw := by rw [index_enter, if_neg fun hvw : v = w ↦ hv (hvw ▸ hw)]
  le_index w hw hnot := by
    obtain rfl := (cameTo_enter.1 hw).resolve_left hnot
    rw [index_enter, if_pos rfl]
  stack := ⟨[v], rfl, by simpa using hv⟩

end Extends

/-! ### What holds at every moment -/

/-- What holds at every moment of a search. Gray are the nodes that are under way then: the search
came to them and has not followed all their edges. -/
structure Consistent (g : Digraph) (gray : List String) (s : Search) : Prop where
  /-- What the search came to stands on the stack or in a complete component. -/
  cameTo_iff : ∀ v, s.CameTo v ↔ v ∈ s.stack ∨ v ∈ s.components.flatten
  /-- But not in both. -/
  apart : ∀ v ∈ s.stack, v ∉ s.components.flatten
  /-- The search comes to nodes only. -/
  mem_vertices : ∀ v, s.CameTo v → v ∈ g.vertices
  /-- Numbers that were given are below the next one. -/
  index_lt : ∀ v, s.CameTo v → s.index v < s.counter
  /-- What is under way stands on the stack. -/
  mem_stack : ∀ v ∈ gray, v ∈ s.stack
  /-- What the search has left leads to nothing new. -/
  explored : ∀ v, s.CameTo v → v ∉ gray → ∀ w, g.Edge v w → s.CameTo w
  /-- Complete components lead to complete components. -/
  closed : ∀ v ∈ s.components.flatten, ∀ w, g.Edge v w → w ∈ s.components.flatten
  /-- They are components. -/
  isComponent : ∀ c ∈ s.components, g.IsComponent c
  /-- None reaches a later one. -/
  backwards : s.components.Pairwise fun c d ↦ ∀ v ∈ c, ∀ w ∈ d, ¬ g.Reaches v w
  /-- What is under way reaches all above it. -/
  reaches : ∀ u ∈ gray, ∀ v ∈ s.stack, s.index u ≤ s.index v → g.Reaches u v
  /-- Every node of the stack reaches something that is under way, and not above it. -/
  exists_gray : ∀ v ∈ s.stack, ∃ u ∈ gray, s.index u ≤ s.index v ∧ g.Reaches v u

theorem consistent_start (g : Digraph) : Consistent g [] start where
  cameTo_iff _ := by simp [CameTo, start, Table.names, Table.empty, Entries.names]
  apart := by simp [start]
  mem_vertices v hv := by cases hv
  index_lt v hv := by cases hv
  mem_stack := by simp
  explored v hv := by cases hv
  closed := by simp [start]
  isComponent := by simp [start]
  backwards := .nil
  reaches := by simp
  exists_gray := by simp [start]

namespace Consistent

/-- The search came to all that is on its stack. -/
theorem cameTo_of_stack (h : Consistent g gray s) (hv : v ∈ s.stack) : s.CameTo v :=
  (h.cameTo_iff v).2 (.inl hv)

/-- What complete components reach is complete. -/
theorem mem_flatten_of_reaches (h : Consistent g gray s) (hv : v ∈ s.components.flatten)
    (hvw : g.Reaches v w) :
    w ∈ s.components.flatten := by
  induction hvw with
  | refl => exact hv
  | tail _ hxy ih => exact h.closed _ ih _ hxy

/-- What stands above the rest of the stack has the higher numbers. -/
theorem counter_le_index (h : Consistent g gray t) (hextends : s.Extends t)
    (hv : v ∈ t.stack) (hnot : v ∉ s.stack) :
    s.counter ≤ t.index v :=
  hextends.le_index v (h.cameTo_of_stack hv) fun hcame ↦
    hnot (hextends.mem_stack_of_cameTo hv hcame)

/-- A search stays consistent when it enters a node that all gray nodes lead to. -/
theorem enter (h : Consistent g gray s) (hv : ¬ s.CameTo v) (hvertex : v ∈ g.vertices)
    (hgray : ∀ u ∈ gray, g.Reaches u v) : Consistent g (v :: gray) (s.enter v) := by
  have hextends : s.Extends (s.enter v) := .enter hv
  have hself : (s.enter v).index v = s.counter := by rw [index_enter, if_pos rfl]
  have hsame : ∀ w ∈ s.stack, (s.enter v).index w = s.index w := fun w hw ↦
    hextends.index_eq w (h.cameTo_of_stack hw)
  have hbelow : ∀ w ∈ s.stack, (s.enter v).index w < (s.enter v).index v := by
    intro w hw
    rw [hself, hsame w hw]
    exact h.index_lt w (h.cameTo_of_stack hw)
  refine
    { cameTo_iff := fun w ↦ ?_, apart := fun w hw ↦ ?_, mem_vertices := fun w hw ↦ ?_,
      index_lt := fun w hw ↦ ?_
      mem_stack := fun w hw ↦ ?_, explored := fun w hw hnot x hwx ↦ ?_
      closed := h.closed, isComponent := h.isComponent, backwards := h.backwards
      reaches := fun u hu w hw hle ↦ ?_, exists_gray := fun w hw ↦ ?_ }
  · rw [cameTo_enter, h.cameTo_iff, Search.enter, List.mem_cons, or_comm, or_assoc]
  · rcases List.mem_cons.1 hw with rfl | hw
    · exact fun hflat ↦ hv ((h.cameTo_iff w).2 (.inr hflat))
    · exact h.apart w hw
  · rcases cameTo_enter.1 hw with hw | rfl
    · exact h.mem_vertices w hw
    · exact hvertex
  · rcases cameTo_enter.1 hw with hw | rfl
    · rw [hextends.index_eq w hw]
      exact Nat.lt_succ_of_lt (h.index_lt w hw)
    · exact hself ▸ Nat.lt_succ_self _
  · rcases List.mem_cons.1 hw with rfl | hw
    · exact List.mem_cons_self
    · exact List.mem_cons_of_mem _ (h.mem_stack w hw)
  · rw [List.mem_cons, not_or] at hnot
    exact hextends.cameTo x (h.explored w ((cameTo_enter.1 hw).resolve_right hnot.1) hnot.2 x hwx)
  · rcases List.mem_cons.1 hu with rfl | hu'
    · rcases List.mem_cons.1 hw with rfl | hw
      · exact .refl g w
      · exact absurd (hbelow w hw) (Nat.not_lt.2 hle)
    · rcases List.mem_cons.1 hw with rfl | hw
      · exact hgray u hu'
      · rw [hsame u (h.mem_stack u hu'), hsame w hw] at hle
        exact h.reaches u hu' w hw hle
  · rcases List.mem_cons.1 hw with rfl | hw
    · exact ⟨w, List.mem_cons_self, Nat.le_refl _, .refl g w⟩
    · obtain ⟨u, hu, hle, hwu⟩ := h.exists_gray w hw
      refine ⟨u, List.mem_cons_of_mem _ hu, ?_, hwu⟩
      rwa [hsame u (h.mem_stack u hu), hsame w hw]

end Consistent

/-! ### What low links tell -/

section Follow

variable {connect : Search → String → Search × Nat}

/-- An edge to a new node is followed. -/
theorem follow_of_get?_eq_none (h : s.indices.get? w = none) :
    follow connect (s, low) w = ((connect s w).1, min low (connect s w).2) := by
  simp only [follow, h]

/-- An edge to a node on the stack gives the number of that node. -/
theorem follow_of_mem_stack {i : Nat} (h : s.indices.get? w = some i) (hw : w ∈ s.stack) :
    follow connect (s, low) w = (s, min low i) := by
  simp only [follow, h, List.contains_iff_mem.2 hw, if_true]

/-- An edge to a node that has its component says nothing. -/
theorem follow_of_not_mem_stack {i : Nat} (h : s.indices.get? w = some i) (hw : w ∉ s.stack) :
    follow connect (s, low) w = (s, low) := by
  simp only [follow, h, if_neg fun hcontains ↦ hw (List.contains_iff_mem.1 hcontains)]

end Follow

/-- A low link is the number of a node that the search comes to, or one on the stack that the node
leads back to. -/
def LeadsBack (g : Digraph) (s : Search) (v : String) (low : Nat) : Prop :=
  low = s.counter ∨ ∃ y ∈ s.stack, s.index y = low ∧ g.Reaches v y

/-- What a search comes to that came to a node, with the low link of that node. -/
structure Connected (g : Digraph) (gray : List String) (s : Search) (v : String)
    (t : Search) (low : Nat) : Prop where
  consistent : Consistent g gray t
  further : s.Extends t
  cameTo : t.CameTo v
  leadsBack : LeadsBack g s v low
  /-- No edge of a new node leads further back. -/
  low_le : ∀ x ∈ t.stack, ¬ s.CameTo x → ∀ y ∈ s.stack, g.Edge x y → low ≤ s.index y

/-- How far a search is that came to a node and followed some of its edges. -/
structure Progress (g : Digraph) (gray : List String) (s : Search) (v : String)
    (followed : List String) (t : Search) (low : Nat) : Prop where
  consistent : Consistent g (v :: gray) t
  further : (s.enter v).Extends t
  cameTo : ∀ w ∈ followed, t.CameTo w
  leadsBack : LeadsBack g s v low
  /-- No edge of a new node leads further back, as far as the edges of the node were followed. -/
  low_le : ∀ x ∈ t.stack, ¬ s.CameTo x → ∀ y ∈ s.stack, g.Edge x y →
    (x = v → y ∈ followed) → low ≤ s.index y

/-- A low link is at most the next number. -/
theorem LeadsBack.le_counter (h : LeadsBack g s v low) (hs : Consistent g gray s) :
    low ≤ s.counter := by
  rcases h with rfl | ⟨y, hy, rfl, -⟩
  · exact Nat.le_refl _
  · exact Nat.le_of_lt (hs.index_lt y (hs.cameTo_of_stack hy))

/-- A low link may be lowered to a number that the node leads back to. -/
theorem LeadsBack.min {i : Nat} (h : LeadsBack g s v low) (hs : Consistent g gray s)
    (hi : s.counter ≤ i ∨ ∃ y ∈ s.stack, s.index y = i ∧ g.Reaches v y) :
    LeadsBack g s v (min low i) := by
  rcases Nat.le_total low i with hle | hle
  · rwa [Nat.min_eq_left hle]
  · rw [Nat.min_eq_right hle]
    rcases hi with hi | hi
    · exact .inl (Nat.le_antisymm (Nat.le_trans hle (h.le_counter hs)) hi)
    · exact .inr hi

/-! ### Following edges -/

namespace Progress

theorem start (hs : Consistent g gray s) (hv : ¬ s.CameTo v) (hvertex : v ∈ g.vertices)
    (hgray : ∀ u ∈ gray, g.Reaches u v) : Progress g gray s v [] (s.enter v) s.counter where
  consistent := hs.enter hv hvertex hgray
  further := .refl _
  cameTo w hw := absurd hw List.not_mem_nil
  leadsBack := .inl rfl
  low_le x hx hnew y hy hxy hfollowed := by
    rcases List.mem_cons.1 hx with rfl | hx
    · exact absurd (hfollowed rfl) List.not_mem_nil
    · exact absurd (hs.cameTo_of_stack hx) hnew

/-- What follows the edges of a node goes on from the search before it. -/
theorem extends_start (h : Progress g gray s v followed t low) (hv : ¬ s.CameTo v) : s.Extends t :=
  (Extends.enter hv).trans h.further

/-- The numbers of what was on the stack stay. -/
theorem index_eq (h : Progress g gray s v followed t low)
    (hs : Consistent g gray s) (hv : ¬ s.CameTo v) (hy : y ∈ s.stack) : t.index y = s.index y :=
  (h.extends_start hv).index_eq y (hs.cameTo_of_stack hy)

/-- A number on the stack is one that the node may lead back to, or not below its own. -/
theorem leadsBack_min (h : Progress g gray s v followed t low)
    (hs : Consistent g gray s) (hv : ¬ s.CameTo v) (hy : y ∈ t.stack) (hvy : g.Reaches v y) :
    LeadsBack g s v (min low (t.index y)) := by
  refine h.leadsBack.min hs ?_
  by_cases hold : y ∈ s.stack
  · exact .inr ⟨y, hold, (h.index_eq hs hv hold).symm, hvy⟩
  · exact .inl (h.consistent.counter_le_index (h.extends_start hv) hy hold)

/-- An edge to a node that the search had not come to. -/
theorem connect {u : Search} {lowOfNext : Nat} (h : Progress g gray s v followed t low)
    (hs : Consistent g gray s) (hv : ¬ s.CameTo v) (hvw : g.Edge v w) (hw : ¬ t.CameTo w)
    (hu : Connected g (v :: gray) t w u lowOfNext) :
    Progress g gray s v (followed ++ [w]) u (min low lowOfNext) where
  consistent := hu.consistent
  further := h.further.trans hu.further
  cameTo x hx := by
    rcases List.mem_append.1 hx with hx | hx
    · exact hu.further.cameTo x (h.cameTo x hx)
    · exact List.mem_singleton.1 hx ▸ hu.cameTo
  leadsBack := by
    rcases hu.leadsBack with rfl | ⟨y, hy, rfl, hwy⟩
    · exact h.leadsBack.min hs (.inl (h.extends_start hv).counter_le)
    · exact h.leadsBack_min hs hv hy (.head hvw hwy)
  low_le x hx hnew y hy hxy hfollowed := by
    have hy' : y ∈ t.stack := (h.extends_start hv).mem_stack hy
    by_cases hcame : t.CameTo x
    · have hx' : x ∈ t.stack := hu.further.mem_stack_of_cameTo hx hcame
      refine Nat.le_trans (Nat.min_le_left _ _) (h.low_le x hx' hnew y hy hxy fun hxv ↦ ?_)
      refine (List.mem_append.1 (hfollowed hxv)).resolve_right fun hyw ↦ hw ?_
      exact List.mem_singleton.1 hyw ▸ h.consistent.cameTo_of_stack hy'
    · refine Nat.le_trans (Nat.min_le_right _ _) ?_
      exact h.index_eq hs hv hy ▸ hu.low_le x hx hcame y hy' hxy

/-- An edge to a node on the stack. -/
theorem lower (h : Progress g gray s v followed t low)
    (hs : Consistent g gray s) (hv : ¬ s.CameTo v) (hvw : g.Edge v w) (hw : w ∈ t.stack) :
    Progress g gray s v (followed ++ [w]) t (min low (t.index w)) where
  consistent := h.consistent
  further := h.further
  cameTo x hx := by
    rcases List.mem_append.1 hx with hx | hx
    · exact h.cameTo x hx
    · exact List.mem_singleton.1 hx ▸ h.consistent.cameTo_of_stack hw
  leadsBack := h.leadsBack_min hs hv hw (.single hvw)
  low_le x hx hnew y hy hxy hfollowed := by
    by_cases hyw : y = w
    · exact Nat.le_trans (Nat.min_le_right _ _) (Nat.le_of_eq (hyw ▸ h.index_eq hs hv hy))
    · refine Nat.le_trans (Nat.min_le_left _ _) (h.low_le x hx hnew y hy hxy fun hxv ↦ ?_)
      exact (List.mem_append.1 (hfollowed hxv)).resolve_right fun hmem ↦
        hyw (List.mem_singleton.1 hmem)

/-- An edge to a node of a complete component. -/
theorem skip (h : Progress g gray s v followed t low) (hv : ¬ s.CameTo v)
    (hcame : t.CameTo w) (hw : w ∉ t.stack) :
    Progress g gray s v (followed ++ [w]) t low where
  consistent := h.consistent
  further := h.further
  cameTo x hx := by
    rcases List.mem_append.1 hx with hx | hx
    · exact h.cameTo x hx
    · exact List.mem_singleton.1 hx ▸ hcame
  leadsBack := h.leadsBack
  low_le x hx hnew y hy hxy hfollowed := by
    refine h.low_le x hx hnew y hy hxy fun hxv ↦ ?_
    refine (List.mem_append.1 (hfollowed hxv)).resolve_right fun hyw ↦ hw ?_
    exact List.mem_singleton.1 hyw ▸ (h.extends_start hv).mem_stack hy

end Progress

/-- Following an edge, where coming to a node that is new goes right. -/
theorem Progress.follow {connect : Search → String → Search × Nat}
    (h : Progress g gray s v followed t low) (hs : Consistent g gray s)
    (hv : ¬ s.CameTo v) (hvw : g.Edge v w)
    (hconnect : ¬ t.CameTo w → Connected g (v :: gray) t w (connect t w).1 (connect t w).2) :
    Progress g gray s v (followed ++ [w]) (follow connect (t, low) w).1
      (follow connect (t, low) w).2 := by
  cases hget : t.indices.get? w with
  | none =>
    have hw : ¬ t.CameTo w := fun hw ↦ by
      obtain ⟨i, hi⟩ := Table.mem_names_iff.1 hw
      cases hget.symm.trans hi
    rw [follow_of_get?_eq_none hget]
    exact h.connect hs hv hvw hw (hconnect hw)
  | some i =>
    by_cases hw : w ∈ t.stack
    · rw [follow_of_mem_stack hget hw, ← index_eq_of_get? hget]
      exact h.lower hs hv hvw hw
    · rw [follow_of_not_mem_stack hget hw]
      exact h.skip hv (Table.mem_names_iff.2 ⟨i, hget⟩) hw

/-- Following one edge after another. -/
theorem Progress.foldl {connect : Search → String → Search × Nat}
    (hs : Consistent g gray s) (hv : ¬ s.CameTo v) (hconnect : ∀ t w, Consistent g (v :: gray) t →
      (s.enter v).Extends t → g.Edge v w → ¬ t.CameTo w →
      Connected g (v :: gray) t w (connect t w).1 (connect t w).2)
    {ws : List String} (hws : ∀ w ∈ ws, g.Edge v w) (h : Progress g gray s v followed t low) :
    Progress g gray s v (followed ++ ws) (ws.foldl (Search.follow connect) (t, low)).1
      (ws.foldl (Search.follow connect) (t, low)).2 := by
  induction ws generalizing followed t low with
  | nil => rwa [List.append_nil]
  | cons w ws ih =>
    rw [List.append_cons, List.foldl_cons]
    have hvw : g.Edge v w := hws w List.mem_cons_self
    refine ih (fun x hx ↦ hws x (List.mem_cons_of_mem w hx)) (h.follow hs hv hvw fun hw ↦ ?_)
    exact hconnect t w h.consistent h.further hvw hw

end Search

end EventSchema.Digraph
