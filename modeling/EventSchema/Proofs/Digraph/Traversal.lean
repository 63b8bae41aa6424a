import EventSchema.Proofs.Digraph.Walks

/-!
# What the depth first traversal lists

`Digraph.explore` marks a node before it goes on from it, and its depth is bounded by a number. The
bound suffices as long as it exceeds the number of nodes that are not marked (`unmarked_lt`), and
then what it lists is complete (`explored_explore`): every node of `todo` is listed or was marked,
and so is everything that a listed node leads to. Nothing is listed twice, and only what a walk
leads to (`exists_walk_of_mem_explore`).
-/

namespace EventSchema.Digraph

open Relation

variable {next : String → List String}

/-! ### One step of the traversal -/

/-- Go depth first from one node, after `left` was listed. -/
def visit (next : String → List String) (depth : Nat) (marked left : List String) (v : String) :
    List String :=
  if marked.contains v || left.contains v then left
  else left ++ explore next depth (v :: left ++ marked) (next v) ++ [v]

theorem explore_succ (next : String → List String) (depth : Nat) (marked todo : List String) :
    explore next (depth + 1) marked todo = todo.foldl (visit next depth marked) [] := rfl

theorem visit_of_mem {depth : Nat} {marked left : List String} {v : String}
    (hv : v ∈ marked ∨ v ∈ left) : visit next depth marked left v = left := by
  simp [visit, hv]

theorem visit_of_not_mem {depth : Nat} {marked left : List String} {v : String}
    (hm : v ∉ marked) (hl : v ∉ left) :
    visit next depth marked left v =
      left ++ explore next depth (v :: left ++ marked) (next v) ++ [v] := by
  simp [visit, hm, hl]

/-! ### Only what a walk leads to is listed -/

/-- Whatever is listed lies on a walk from one of the nodes to start from. -/
theorem exists_walk_of_mem_explore {depth : Nat} :
    ∀ {marked todo : List String} {x : String}, x ∈ explore next depth marked todo →
      ∃ v ∈ todo, ReflTransGen (fun v w ↦ w ∈ next v) v x := by
  induction depth with
  | zero => simp [explore]
  | succ depth ih =>
    intro marked todo x hx
    -- the nodes that are still to do run through the list, what is listed is carried along
    suffices key : ∀ (rest left : List String), x ∈ rest.foldl (visit next depth marked) left →
        x ∈ left ∨ ∃ v ∈ rest, ReflTransGen (fun v w ↦ w ∈ next v) v x by
      simpa using key todo [] hx
    intro rest
    induction rest with
    | nil => exact fun left hx ↦ .inl hx
    | cons v rest ihrest =>
      intro left hx
      rcases ihrest _ hx with hx | ⟨u, hu, hux⟩
      · by_cases hv : v ∈ marked ∨ v ∈ left
        · rw [visit_of_mem hv] at hx
          exact .inl hx
        · obtain ⟨hm, hl⟩ := not_or.1 hv
          rw [visit_of_not_mem hm hl, List.mem_append, List.mem_append, List.mem_singleton] at hx
          rcases hx with (hx | hx) | rfl
          · exact .inl hx
          · obtain ⟨w, hw, hwx⟩ := ih hx
            exact .inr ⟨v, List.mem_cons_self, ReflTransGen.head hw hwx⟩
          · exact .inr ⟨x, List.mem_cons_self, ReflTransGen.refl⟩
      · exact .inr ⟨u, List.mem_cons_of_mem _ hu, hux⟩

/-! ### Nothing is left out -/

/-- What a traversal past some marks may list: new nodes, each once, together with all that they
lead to. -/
structure Explored (next : String → List String) (marked left : List String) : Prop where
  /-- Every node is listed once. -/
  nodup : left.Nodup
  /-- No marked node is listed. -/
  fresh : ∀ v ∈ left, v ∉ marked
  /-- What a listed node leads to is listed too, unless it was marked. -/
  closed : ∀ v ∈ left, ∀ w ∈ next v, w ∈ left ∨ w ∈ marked

theorem Explored.nil (next : String → List String) (marked : List String) :
    Explored next marked [] := ⟨List.nodup_nil, by simp, by simp⟩

/-- A node may be listed behind all that is new and that it leads to. -/
theorem Explored.snoc {marked left below : List String} {v : String}
    (hleft : Explored next marked left) (hm : v ∉ marked) (hl : v ∉ left)
    (hbelow : Explored next (v :: left ++ marked) below)
    (hnext : ∀ w ∈ next v, w ∈ below ∨ w ∈ v :: left ++ marked) :
    Explored next marked (left ++ below ++ [v]) := by
  have hseen : ∀ w, w ∈ below ∨ w ∈ v :: left ++ marked →
      w ∈ left ++ below ++ [v] ∨ w ∈ marked := by
    intro w hw
    simp only [List.mem_append, List.mem_cons, List.not_mem_nil, or_false] at hw ⊢
    tauto
  refine ⟨?_, ?_, ?_⟩
  -- nothing is listed twice, since what is below was looked for with `v` and the left part marked
  · rw [List.nodup_append, List.nodup_append]
    refine ⟨⟨hleft.nodup, hbelow.nodup, ?_⟩, List.nodup_singleton v, ?_⟩
    · rintro x hx y hy rfl
      exact hbelow.fresh x hy (by simp [hx])
    · rintro x hx y hy rfl
      obtain rfl := List.mem_singleton.1 hy
      rcases List.mem_append.1 hx with hx | hx
      · exact hl hx
      · exact hbelow.fresh x hx (by simp)
  · intro x hx hxm
    rw [List.mem_append, List.mem_append, List.mem_singleton] at hx
    rcases hx with (hx | hx) | rfl
    · exact hleft.fresh x hx hxm
    · exact hbelow.fresh x hx (by simp [hxm])
    · exact hm hxm
  · intro x hx w hw
    rw [List.mem_append, List.mem_append, List.mem_singleton] at hx
    rcases hx with (hx | hx) | rfl
    · rcases hleft.closed x hx w hw with h | h
      · exact .inl (by simp [h])
      · exact .inr h
    · exact hseen w (hbelow.closed x hx w hw)
    · exact hseen w (hnext w hw)

/-- How many of the nodes are not marked. -/
def unmarked (nodes marked : List String) : Nat :=
  (nodes.filter fun v ↦ !marked.contains v).length

/-- Marking more nodes, one of which was not marked, leaves fewer of them. -/
theorem unmarked_lt_of_subset {nodes marked marked' : List String} {v : String}
    (hv : v ∈ nodes) (hm : v ∉ marked) (hm' : v ∈ marked') (hsubset : marked ⊆ marked') :
    unmarked nodes marked' < unmarked nodes marked := by
  have hsplit : nodes.filter (fun u ↦ !marked'.contains u) =
      (nodes.filter fun u ↦ !marked.contains u).filter fun u ↦ !marked'.contains u := by
    rw [List.filter_filter]
    refine List.filter_congr fun u _ ↦ ?_
    by_cases hu : u ∈ marked
    · simp [hsubset hu]
    · simp [hu]
  rw [unmarked, unmarked, hsplit, List.length_filter_lt_length_iff_exists]
  exact ⟨v, List.mem_filter.2 ⟨hv, by simpa using hm⟩, by simpa using hm'⟩

/-- Marking a node that was not marked leaves fewer of them. -/
theorem unmarked_lt {nodes marked more : List String} {v : String} (hv : v ∈ nodes)
    (hm : v ∉ marked) : unmarked nodes (v :: more ++ marked) < unmarked nodes marked :=
  unmarked_lt_of_subset hv hm (by simp) fun u hu ↦ by simp [hu]

/-- A traversal that is bounded by more than the number of unmarked nodes leaves nothing out. -/
theorem explored_explore {nodes : List String} (hnodes : ∀ v ∈ nodes, ∀ w ∈ next v, w ∈ nodes)
    {depth : Nat} : ∀ {marked todo : List String}, unmarked nodes marked < depth →
      (∀ v ∈ todo, v ∈ nodes) →
      Explored next marked (explore next depth marked todo) ∧
        ∀ v ∈ todo, v ∈ explore next depth marked todo ∨ v ∈ marked := by
  induction depth with
  | zero => exact fun h ↦ absurd h (Nat.not_lt_zero _)
  | succ depth ih =>
    intro marked todo hdepth htodo
    rw [explore_succ]
    suffices key : ∀ (rest left : List String), (∀ v ∈ rest, v ∈ nodes) →
        Explored next marked left →
        Explored next marked (rest.foldl (visit next depth marked) left) ∧
          (∀ v ∈ left, v ∈ rest.foldl (visit next depth marked) left) ∧
          ∀ v ∈ rest, v ∈ rest.foldl (visit next depth marked) left ∨ v ∈ marked by
      obtain ⟨hall, -, hmem⟩ := key todo [] htodo (.nil next marked)
      exact ⟨hall, hmem⟩
    intro rest
    induction rest with
    | nil => exact fun left _ hleft ↦ ⟨hleft, fun v hv ↦ hv, by simp⟩
    | cons v rest ihrest =>
      intro left hrest hleft
      -- one step keeps the invariant, keeps what was listed, and takes care of `v`
      have hstep : Explored next marked (visit next depth marked left v) ∧
          (∀ u ∈ left, u ∈ visit next depth marked left v) ∧
          (v ∈ visit next depth marked left v ∨ v ∈ marked) := by
        by_cases hv : v ∈ marked ∨ v ∈ left
        · rw [visit_of_mem hv]
          exact ⟨hleft, fun u hu ↦ hu, hv.symm⟩
        · obtain ⟨hm, hl⟩ := not_or.1 hv
          have hvn : v ∈ nodes := hrest v List.mem_cons_self
          have hlt : unmarked nodes (v :: left ++ marked) < depth :=
            Nat.lt_of_lt_of_le (unmarked_lt hvn hm) (Nat.lt_succ_iff.1 hdepth)
          obtain ⟨hbelow, hnext⟩ := ih hlt (hnodes v hvn)
          rw [visit_of_not_mem hm hl]
          exact ⟨hleft.snoc hm hl hbelow hnext, fun u hu ↦ by simp [hu], .inl (by simp)⟩
      obtain ⟨hvisit, hkeep, hv⟩ := hstep
      obtain ⟨hall, hmono, hmem⟩ :=
        ihrest _ (fun u hu ↦ hrest u (List.mem_cons_of_mem _ hu)) hvisit
      refine ⟨hall, fun u hu ↦ hmono u (hkeep u hu), fun u hu ↦ ?_⟩
      rcases List.mem_cons.1 hu with rfl | hu
      · exact hv.imp_left (hmono u)
      · exact hmem u hu

end EventSchema.Digraph
