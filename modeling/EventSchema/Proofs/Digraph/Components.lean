import EventSchema.Proofs.Digraph.Search

/-!
# The components that are found

If the low link of a node is its own number once all its edges were followed, no edge of a new node
leads behind it. So the new nodes on the stack reach the node, which reaches them, and they are its
component (`Search.Progress.isComponent_new`). Otherwise the node leads back to one that is under
way, and stays on the stack with them (`Search.Progress.leave`).

When nothing is under way any more the stack is empty, so every node lies in a component
(`mem_flatten_components`).
-/

namespace EventSchema.Digraph

variable {g : Digraph} {v w : String} {c d : List String}

namespace Search

variable {s t : Search} {x y : String} {gray followed new : List String} {low : Nat}

/-! ### Complete components -/

theorem complete_of_stack {above below : List String} (hstack : s.stack = above ++ v :: below)
    (hv : v ∉ above) :
    s.complete v = { s with
      stack := below
      components := s.components ++ [(NameSet.ofList (above ++ [v])).toList] } := by
  have habove : ∀ u ∈ above, decide (u ≠ v) = true :=
    fun u hu ↦ decide_eq_true fun huv ↦ hv (huv ▸ hu)
  rw [complete, hstack, List.takeWhile_append_of_pos habove, List.dropWhile_append_of_pos habove]
  simp

namespace Progress

/-- Where a node has been left its edges lead to what the search came to. -/
theorem explored (h : Progress g gray s v (g.successors v) t low)
    (hx : t.CameTo x) (hgray : x ∉ gray) (hxy : g.Edge x y) : t.CameTo y := by
  by_cases hxv : x = v
  · exact h.cameTo y (mem_successors.2 (hxv ▸ hxy))
  · exact h.consistent.explored x hx (by simp [hxv, hgray]) y hxy

theorem index_self (h : Progress g gray s v followed t low) : t.index v = s.counter := by
  rw [h.further.index_eq v (cameTo_enter.2 (.inr rfl)), index_enter, if_pos rfl]

section New

variable (h : Progress g gray s v (g.successors v) t low)
  (hs : Consistent g gray s) (hv : ¬ s.CameTo v) (hstack : t.stack = new ++ s.stack)
  (hnew : ∀ x ∈ new, ¬ s.CameTo x)

include h hs hstack hnew

/-- If its low link is the number of a node itself, no new node leads back behind it. -/
theorem mem_new_of_reaches (hlow : low = s.counter) (hx : x ∈ new) (hxy : g.Reaches x y) :
    y ∈ new ∨ y ∈ t.components.flatten := by
  induction hxy with
  | refl => exact .inl hx
  | @tail a b _ hab ih =>
    rcases ih with ha | ha
    · have hmem : a ∈ t.stack := hstack ▸ List.mem_append_left _ ha
      have hgray : a ∉ gray := fun hgray ↦ hnew a ha (hs.cameTo_of_stack (hs.mem_stack a hgray))
      have hb : t.CameTo b := h.explored (h.consistent.cameTo_of_stack hmem) hgray hab
      rcases (h.consistent.cameTo_iff b).1 hb with hb | hb
      · rw [hstack, List.mem_append] at hb
        refine .inl (hb.resolve_right fun hb ↦ ?_)
        -- an edge that leads behind the node would have lowered its low link
        have hle := h.low_le a hmem (hnew a ha) b hb hab fun hav ↦ mem_successors.2 (hav ▸ hab)
        exact absurd (hs.index_lt b (hs.cameTo_of_stack hb)) (Nat.not_lt.2 (hlow ▸ hle))
      · exact .inr hb
    · exact .inr (h.consistent.closed a ha b hab)

include hv

/-- The new nodes on the stack and the node itself reach each other then. -/
theorem mutual_of_mem_new (hlow : low = s.counter) (hx : x ∈ new) : g.Mutual v x := by
  have hmem : x ∈ t.stack := hstack ▸ List.mem_append_left _ hx
  constructor
  · refine h.consistent.reaches v List.mem_cons_self x hmem ?_
    rw [h.index_self]
    exact h.consistent.counter_le_index (h.extends_start hv) hmem fun hold ↦
      hnew x hx (hs.cameTo_of_stack hold)
  · obtain ⟨u, hu, -, hxu⟩ := h.consistent.exists_gray x hmem
    rcases List.mem_cons.1 hu with rfl | hu
    · exact hxu
    -- what else is under way stands behind the node
    · have hold : u ∈ s.stack := hs.mem_stack u hu
      rcases h.mem_new_of_reaches hs hstack hnew hlow hx hxu with hu | hu
      · exact absurd (hs.cameTo_of_stack hold) (hnew u hu)
      · exact absurd hu (h.consistent.apart u (hstack ▸ List.mem_append_right _ hold))

/-- They are a component. -/
theorem isComponent_new (hlow : low = s.counter) : g.IsComponent (NameSet.ofList new).toList := by
  have hmem (x : String) : x ∈ (NameSet.ofList new).toList ↔ x ∈ new := by
    rw [← NameSet.mem_def, NameSet.mem_ofList]
  have hself : v ∈ new := by
    have hstack' : v ∈ t.stack := h.further.mem_stack List.mem_cons_self
    rw [hstack, List.mem_append] at hstack'
    exact hstack'.resolve_right fun hold ↦ hv (hs.cameTo_of_stack hold)
  refine ⟨List.ne_nil_of_mem ((hmem v).2 hself), (NameSet.ofList new).ascending, fun x hx w ↦ ?_⟩
  rw [hmem] at hx ⊢
  have hvx : g.Mutual v x := h.mutual_of_mem_new hs hv hstack hnew hlow hx
  constructor
  · exact fun hw ↦ hvx.symm.trans (h.mutual_of_mem_new hs hv hstack hnew hlow hw)
  · intro hxw
    refine (h.mem_new_of_reaches hs hstack hnew hlow hx hxw.1).resolve_right fun hw ↦ ?_
    exact h.consistent.apart x (hstack ▸ List.mem_append_left _ hx)
      (h.consistent.mem_flatten_of_reaches hw hxw.2)

/-- Once they are taken off the stack everything is as it should be. -/
theorem consistent_pop (hlow : low = s.counter) : Consistent g gray
    { t with stack := s.stack, components := t.components ++ [(NameSet.ofList new).toList] } := by
  have hflatten (w : String) :
      w ∈ (t.components ++ [(NameSet.ofList new).toList]).flatten ↔
      w ∈ t.components.flatten ∨ w ∈ new := by
    rw [List.flatten_append, List.flatten_singleton, List.mem_append, ← NameSet.mem_def,
      NameSet.mem_ofList]
  have hmem : ∀ w ∈ s.stack, w ∈ t.stack := fun w hw ↦ hstack ▸ List.mem_append_right _ hw
  have hcomponent : g.IsComponent (NameSet.ofList new).toList :=
    h.isComponent_new hs hv hstack hnew hlow
  refine
    { cameTo_iff := fun w ↦ ?_, apart := fun w hw hflat ↦ ?_,
      mem_vertices := h.consistent.mem_vertices
      index_lt := h.consistent.index_lt, mem_stack := hs.mem_stack
      explored := fun w hw hgray x hwx ↦ h.explored hw hgray hwx, closed := fun w hw x hwx ↦ ?_
      isComponent := fun c hc ↦ ?_, backwards := ?_, reaches := fun u hu w hw hle ↦ ?_
      exists_gray := fun w hw ↦ ?_ }
  · rw [hflatten]
    refine (h.consistent.cameTo_iff w).trans ?_
    rw [hstack, List.mem_append, or_assoc, or_left_comm, or_comm (a := w ∈ new)]
  · rcases (hflatten w).1 hflat with hflat | hw'
    · exact h.consistent.apart w (hmem w hw) hflat
    · exact hnew w hw' (hs.cameTo_of_stack hw)
  · rw [hflatten]
    rcases (hflatten w).1 hw with hw | hw
    · exact .inl (h.consistent.closed w hw x hwx)
    · exact (h.mem_new_of_reaches hs hstack hnew hlow hw (.single hwx)).symm
  · rcases List.mem_append.1 hc with hc | hc
    · exact h.consistent.isComponent c hc
    · exact List.mem_singleton.1 hc ▸ hcomponent
  · refine List.pairwise_append.2 ⟨h.consistent.backwards, List.pairwise_singleton _ _, ?_⟩
    intro c hc d hd x hx w hw hxw
    obtain rfl := List.mem_singleton.1 hd
    have hflat : w ∈ t.components.flatten :=
      h.consistent.mem_flatten_of_reaches (List.mem_flatten.2 ⟨c, hc, hx⟩) hxw
    rw [← NameSet.mem_def, NameSet.mem_ofList] at hw
    exact h.consistent.apart w (hstack ▸ List.mem_append_left _ hw) hflat
  · exact h.consistent.reaches u (List.mem_cons_of_mem v hu) w (hmem w hw) hle
  · obtain ⟨u, hu, hle, hwu⟩ := hs.exists_gray w hw
    refine ⟨u, hu, ?_, hwu⟩
    have hle' : t.index u ≤ t.index w := by
      rwa [h.index_eq hs hv (hs.mem_stack u hu), h.index_eq hs hv hw]
    exact hle'

end New

/-- If its low link is the number of a node itself, the node and what stands above it become a
component. -/
theorem complete (h : Progress g gray s v (g.successors v) t low)
    (hs : Consistent g gray s) (hv : ¬ s.CameTo v) (hlow : low = s.counter) :
    Connected g gray s v (t.complete v) low := by
  obtain ⟨above, hstack, habove⟩ := h.further.stack
  have hstack : t.stack = above ++ v :: s.stack := hstack
  have hpop := complete_of_stack hstack fun hmem ↦ habove v hmem (cameTo_enter.2 (.inr rfl))
  rw [List.append_cons] at hstack
  have hnew : ∀ x ∈ above ++ [v], ¬ s.CameTo x := by
    intro x hx hcame
    rcases List.mem_append.1 hx with hx | hx
    · exact habove x hx (cameTo_enter.2 (.inl hcame))
    · exact hv (List.mem_singleton.1 hx ▸ hcame)
  have hextends := h.extends_start hv
  rw [hpop]
  refine
    { consistent := h.consistent_pop hs hv hstack hnew hlow
      further :=
        { counter_le := hextends.counter_le, cameTo := hextends.cameTo,
          index_eq := hextends.index_eq
          le_index := hextends.le_index, stack := ⟨[], rfl, by simp⟩ }
      cameTo := h.further.cameTo v (cameTo_enter.2 (.inr rfl))
      leadsBack := h.leadsBack
      low_le := fun x hx hnew ↦ absurd (hs.cameTo_of_stack hx) hnew }

/-- Otherwise they stay on the stack, and the node has been left. -/
theorem leave (h : Progress g gray s v (g.successors v) t low)
    (hs : Consistent g gray s) (hv : ¬ s.CameTo v) (hlow : low ≠ s.counter) :
    Connected g gray s v t low := by
  obtain ⟨y, hy, -, hvy⟩ := h.leadsBack.resolve_left hlow
  have hlt : t.index y < t.index v := by
    rw [h.index_self, h.index_eq hs hv hy]
    exact hs.index_lt y (hs.cameTo_of_stack hy)
  have hconsistent : Consistent g gray t :=
    { cameTo_iff := h.consistent.cameTo_iff, apart := h.consistent.apart,
      mem_vertices := h.consistent.mem_vertices
      index_lt := h.consistent.index_lt
      mem_stack := fun u hu ↦ h.consistent.mem_stack u (List.mem_cons_of_mem v hu)
      explored := fun x hx hgray w hxw ↦ h.explored hx hgray hxw, closed := h.consistent.closed
      isComponent := h.consistent.isComponent, backwards := h.consistent.backwards
      reaches := fun u hu ↦ h.consistent.reaches u (List.mem_cons_of_mem v hu)
      exists_gray := fun w hw ↦ by
        obtain ⟨u, hu, hle, hwu⟩ := h.consistent.exists_gray w hw
        rcases List.mem_cons.1 hu with rfl | hu
        -- what reaches the node goes on to what the node leads back to
        · obtain ⟨u', hu', hle', hyu'⟩ := hs.exists_gray y hy
          refine ⟨u', hu', ?_, hwu.trans (hvy.trans hyu')⟩
          rw [← h.index_eq hs hv (hs.mem_stack u' hu'), ← h.index_eq hs hv hy] at hle'
          exact Nat.le_trans hle' (Nat.le_trans (Nat.le_of_lt hlt) hle)
        · exact ⟨u, hu, hle, hwu⟩ }
  exact
    { consistent := hconsistent
      further := h.extends_start hv
      cameTo := h.further.cameTo v (cameTo_enter.2 (.inr rfl))
      leadsBack := h.leadsBack
      low_le := fun x hx hnew y hy hxy ↦
        h.low_le x hx hnew y hy hxy fun hxv ↦ mem_successors.2 (hxv ▸ hxy) }

end Progress

/-! ### The whole search -/

theorem connect_succ (next : String → List String) (depth : Nat) (s : Search) (v : String) :
    connect next (depth + 1) s v =
      let r := (next v).foldl (follow (connect next depth)) (s.enter v, s.counter)
      (if r.2 = s.counter then r.1.complete v else r.1, r.2) := rfl

/-- Coming to a node goes right, if the depth exceeds the number of nodes that the search has not
come to. -/
theorem connected_connect {depth : Nat} (hdepth : unmarked g.vertices s.indices.names < depth)
    (hs : Consistent g gray s) (hv : ¬ s.CameTo v) (hvertex : v ∈ g.vertices)
    (hgray : ∀ u ∈ gray, g.Reaches u v) :
    Connected g gray s v (connect g.successors depth s v).1 (connect g.successors depth s v).2 := by
  induction depth generalizing s v gray with
  | zero => exact absurd hdepth (Nat.not_lt_zero _)
  | succ depth ih =>
    have hnext : ∀ t w, Consistent g (v :: gray) t → (s.enter v).Extends t →
        g.Edge v w → ¬ t.CameTo w →
        Connected g (v :: gray) t w (connect g.successors depth t w).1
          (connect g.successors depth t w).2 := by
      intro t w ht hfurther hvw hw
      have hlt : unmarked g.vertices t.indices.names < unmarked g.vertices s.indices.names :=
        unmarked_lt_of_subset hvertex hv (hfurther.cameTo v (cameTo_enter.2 (.inr rfl))) fun u hu ↦
          hfurther.cameTo u (cameTo_enter.2 (.inl hu))
      refine ih (Nat.lt_of_lt_of_le hlt (Nat.lt_succ_iff.1 hdepth)) ht hw hvw.target_mem fun u hu ↦
        ?_
      rcases List.mem_cons.1 hu with rfl | hu
      · exact .single hvw
      · exact (hgray u hu).tail hvw
    have hall :=
      (Progress.start hs hv hvertex hgray).foldl hs hv hnext fun w hw ↦ mem_successors.1 hw
    rw [List.nil_append] at hall
    rw [connect_succ]
    generalize (g.successors v).foldl (follow (connect g.successors depth))
      (s.enter v, s.counter) = r at hall
    obtain ⟨t, low⟩ := r
    dsimp only at hall ⊢
    split
    · next hlow => exact hall.complete hs hv hlow
    · next hlow => exact hall.leave hs hv hlow

/-- Starting from all nodes comes to all of them. -/
theorem consistent_run {nodes : List String} (hnodes : ∀ v ∈ nodes, v ∈ g.vertices)
    (hs : Consistent g [] s) :
    Consistent g [] (run g.successors (g.vertices.length + 1) s nodes) ∧
      s.Extends (run g.successors (g.vertices.length + 1) s nodes) ∧
      ∀ v ∈ nodes, (run g.successors (g.vertices.length + 1) s nodes).CameTo v := by
  induction nodes generalizing s with
  | nil => exact ⟨hs, .refl s, fun v hv ↦ absurd hv List.not_mem_nil⟩
  | cons v nodes ih =>
    have hrest : ∀ w ∈ nodes, w ∈ g.vertices := fun w hw ↦ hnodes w (List.mem_cons_of_mem v hw)
    rw [run, List.foldl_cons, ← run]
    have hstep : ∃ t,
        (if s.indices.has v then s else (connect g.successors (g.vertices.length + 1) s v).1) = t ∧
        Consistent g [] t ∧ s.Extends t ∧ t.CameTo v := by
      refine ⟨_, rfl, ?_⟩
      split
      · next hhas => exact ⟨hs, .refl s, Table.has_iff.1 hhas⟩
      · next hhas =>
        have hlt : unmarked g.vertices s.indices.names < g.vertices.length + 1 :=
          Nat.lt_succ_of_le (List.length_filter_le _ _)
        have hc := connected_connect hlt hs (fun hcame ↦ hhas (Table.has_iff.2 hcame))
          (hnodes v List.mem_cons_self) (by simp)
        exact ⟨hc.consistent, hc.further, hc.cameTo⟩
    obtain ⟨t, ht, hconsistent, hextends, hcame⟩ := hstep
    rw [ht]
    obtain ⟨hall, hfurther, hcames⟩ := ih hrest hconsistent
    refine ⟨hall, hextends.trans hfurther, fun w hw ↦ ?_⟩
    rcases List.mem_cons.1 hw with rfl | hw
    · exact hfurther.cameTo w hcame
    · exact hcames w hw

/-- What is complete when nothing is under way is all. -/
theorem Consistent.stack_eq_nil (h : Consistent g [] s) : s.stack = [] := by
  refine List.eq_nil_iff_forall_not_mem.2 fun v hv ↦ ?_
  obtain ⟨u, hu, -⟩ := h.exists_gray v hv
  exact absurd hu List.not_mem_nil

end Search

/-! ### All components -/

theorem exists_consistent_search (g : Digraph) : ∃ s : Search, Search.Consistent g [] s ∧
    s.components = g.components ∧ ∀ v, v ∈ s.components.flatten ↔ v ∈ g.vertices := by
  obtain ⟨hs, -, hcame⟩ := Search.consistent_run (fun v hv ↦ hv) (Search.consistent_start g)
  refine ⟨_, hs, rfl,
    fun v ↦ ⟨fun hv ↦ hs.mem_vertices v ((hs.cameTo_iff v).2 (.inr hv)), fun hv ↦ ?_⟩⟩
  refine ((hs.cameTo_iff v).1 (hcame v hv)).resolve_left ?_
  rw [hs.stack_eq_nil]
  exact List.not_mem_nil

theorem mem_flatten_components : v ∈ g.components.flatten ↔ v ∈ g.vertices := by
  obtain ⟨s, -, hs, hall⟩ := exists_consistent_search g
  exact hs ▸ hall v

theorem isComponent_of_mem (hc : c ∈ g.components) : g.IsComponent c := by
  obtain ⟨s, hs, heq, -⟩ := exists_consistent_search g
  exact hs.isComponent c (heq ▸ hc)

theorem exists_mem_of_mem_components (hc : c ∈ g.components) : ∃ v, v ∈ c :=
  List.exists_mem_of_ne_nil c (isComponent_of_mem hc).ne_nil

theorem mem_vertices_of_mem_component (hc : c ∈ g.components) (hv : v ∈ c) : v ∈ g.vertices :=
  mem_flatten_components.1 (List.mem_flatten.2 ⟨c, hc, hv⟩)

theorem exists_component_of_mem (hv : v ∈ g.vertices) : ∃ c ∈ g.components, v ∈ c :=
  List.mem_flatten.1 (mem_flatten_components.2 hv)

/-- A component holds with a node exactly the nodes that reach it and are reached from it. -/
theorem mem_component_iff (hc : c ∈ g.components) (hv : v ∈ c) : w ∈ c ↔ g.Mutual v w :=
  (isComponent_of_mem hc).mem_iff v hv w

theorem component_unique (hc : c ∈ g.components) (hd : d ∈ g.components) (hvc : v ∈ c)
    (hvd : v ∈ d) : c = d := by
  refine NameSet.eq_of_ascending (isComponent_of_mem hc).ascending
    (isComponent_of_mem hd).ascending fun w ↦ ?_
  rw [mem_component_iff hc hvc, mem_component_iff hd hvd]

theorem nodup_component (hc : c ∈ g.components) : c.Nodup := by
  refine (isComponent_of_mem hc).ascending.imp ?_
  rintro v w hvw rfl
  exact String.lt_irrefl v hvw

/-- No walk leads from a component to a later one. -/
theorem pairwise_components (g : Digraph) :
    g.components.Pairwise fun c d ↦ ∀ v ∈ c, ∀ w ∈ d, ¬ g.Reaches v w := by
  obtain ⟨s, hs, heq, -⟩ := exists_consistent_search g
  exact heq ▸ hs.backwards

end EventSchema.Digraph
