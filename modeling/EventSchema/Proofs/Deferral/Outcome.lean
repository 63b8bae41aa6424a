import EventSchema.Proofs.Computation
import EventSchema.Proofs.Deferral.Inside
import EventSchema.Proofs.Deferral.TakingBack

/-!
# What deferring comes to

`ReferenceGraph.defer` goes over the components one by one and then looks for circles that are left.
`settle` is what it makes of a single component, and `execute_deferComponents` says that a run stops
at a component that cannot be settled or puts together what comes of all of them.

What comes of all components is a least deferral of the whole graph (`Settled.leastDeferral`): a
circle never leaves its component, and the pairs of one component are none of another. So no circle
is ever left (`execute_defer`). For a graph whose references all lead to its objects, the only
failure is a circle of references that cannot be deferred (`defer_settles`).
-/

namespace EventSchema.ReferenceGraph

open Relation

variable {g : ReferenceGraph} {c : List String} {refs : List Reference} {e : DeferralError}
  {start d : Deferral} {j : Journal}

/-! ### One component -/

/-- What comes of one component: nothing if it has no references inside, else its deferred pairs. -/
def settle (g : ReferenceGraph) (component : List String) :
    Except DeferralError (Option (List (String × String))) :=
  match g.inside component with
  | .error e => .error e
  | .ok [] => .ok none
  | .ok (r :: refs) => (deferInside component (r :: refs)).map some

/-- Whether a component has deferred pairs, or would have them if it needed any. -/
def isBroken (g : ReferenceGraph) (component : List String) : Bool :=
  match g.settle component with
  | .ok (some _) => true
  | _ => false

/-- A component without references inside has nothing to settle. -/
theorem settle_of_nil (h : g.inside c = .ok []) : g.settle c = .ok none := by
  rw [settle, h]

/-- A component with references inside has some of them deferred. -/
theorem settle_of_ne_nil (h : g.inside c = .ok refs) (hrefs : refs ≠ []) :
    g.settle c = (deferInside c refs).map some := by
  rw [settle, h]
  cases refs with
  | nil => exact absurd rfl hrefs
  | cons r refs => rfl

/-- The three ways in which a component is settled, when its objects are in the graph. -/
theorem settle_cases (h : g.inside c = .ok refs) :
    (refs = [] ∧ g.settle c = .ok none) ∨
    (refs ≠ [] ∧ (∃ v, TransGen (RequiredLink refs) v v) ∧
      g.settle c = .error (.unbreakable c)) ∨
    refs ≠ [] ∧ ∃ deferred, g.settle c = .ok (some deferred) ∧
      LeastDeferral refs {p | p ∈ deferred} := by
  rcases refs with _ | ⟨r, refs⟩
  · exact .inl ⟨rfl, settle_of_nil h⟩
  · have hne : r :: refs ≠ [] := List.cons_ne_nil r refs
    refine .inr ?_
    by_cases hcircle : ∃ v, TransGen (RequiredLink (r :: refs)) v v
    · refine .inl ⟨hne, hcircle, ?_⟩
      rw [settle_of_ne_nil h hne, deferInside_eq_error c fun hno ↦ hcircle.elim hno]
      rfl
    · obtain ⟨deferred, hdeferred, hleast⟩ :=
        exists_leastDeferral_inside c (pairsDistinct_inside h) (not_exists.1 hcircle)
      refine .inr ⟨hne, deferred, ?_, hleast⟩
      rw [settle_of_ne_nil h hne, hdeferred]
      rfl

/-- A component that was settled has its references listed. -/
theorem exists_inside_of_settle {o : Option (List (String × String))} (h : g.settle c = .ok o) :
    ∃ refs, g.inside c = .ok refs := by
  rcases hin : g.inside c with e | refs
  · rw [settle, hin] at h
    cases h
  · exact ⟨refs, rfl⟩

/-- The deferred pairs of a component are a least deferral of the references inside. -/
theorem leastDeferral_of_settle {deferred : List (String × String)}
    (h : g.settle c = .ok (some deferred)) :
    ∃ refs, g.inside c = .ok refs ∧ LeastDeferral refs {p | p ∈ deferred} := by
  obtain ⟨refs, hin⟩ := exists_inside_of_settle h
  refine ⟨refs, hin, ?_⟩
  rcases settle_cases hin with ⟨-, h'⟩ | ⟨-, -, h'⟩ | ⟨-, deferred', h', hleast⟩
  · rw [h] at h'
    cases h'
  · rw [h] at h'
    cases h'
  · rw [h] at h'
    cases h'
    exact hleast

/-! ### One component after another -/

/-- A component that cannot be settled ends the run. -/
theorem execute_deferComponents_error (rest : List (List String)) (d : Deferral) (j : Journal)
    (h : g.settle c = .error e) : (execute (g.deferComponents d (c :: rest)) j).1 = .error e := by
  rw [deferComponents, execute_bind, Reporting.execute_ofExcept]
  unfold settle at h
  split at h
  · next hin =>
    cases h
    rw [hin]
  · cases h
  · next r refs hin =>
    rw [hin]
    rcases hdef : deferInside c (r :: refs) with e' | deferred
    · rw [hdef] at h
      cases h
      simp only [List.isEmpty_cons, Bool.false_eq_true, if_false]
      rw [execute_bind, Reporting.execute_ofExcept, hdef]
    · rw [hdef] at h
      cases h

/-- A component with nothing to settle is passed over. -/
theorem execute_deferComponents_none (rest : List (List String)) (d : Deferral) (j : Journal)
    (h : g.settle c = .ok none) :
    execute (g.deferComponents d (c :: rest)) j = execute (g.deferComponents d rest) j := by
  rw [deferComponents, execute_bind, Reporting.execute_ofExcept]
  unfold settle at h
  split at h
  · cases h
  · next hin =>
    rw [hin]
    rfl
  · next r refs hin =>
    rcases hdef : deferInside c (r :: refs) with e | deferred <;> rw [hdef] at h <;> cases h

/-- What is deferred in a component is added to what was deferred before. -/
theorem execute_deferComponents_some (rest : List (List String)) (d : Deferral) (j : Journal)
    {deferred : List (String × String)} (h : g.settle c = .ok (some deferred)) :
    ∃ j', execute (g.deferComponents d (c :: rest)) j =
      execute (g.deferComponents ⟨d.pairs ++ deferred, d.components ++ [c]⟩ rest) j' := by
  rw [deferComponents, execute_bind, Reporting.execute_ofExcept]
  unfold settle at h
  split at h
  · cases h
  · cases h
  · next r refs hin =>
    rw [hin]
    rcases hdef : deferInside c (r :: refs) with e | deferred'
    · rw [hdef] at h
      cases h
    · rw [hdef] at h
      cases h
      simp only [List.isEmpty_cons, Bool.false_eq_true, if_false]
      rw [execute_bind, Reporting.execute_ofExcept, hdef]
      exact ⟨_, execute_bind_ok (Reporting.execute_report _ _ _)⟩

/-- What a run over components adds to what was there before. -/
structure Settled (g : ReferenceGraph) (components : List (List String)) (start d : Deferral) :
    Prop where
  /-- Every component was settled. -/
  all : ∀ c ∈ components, ∃ o, g.settle c = .ok o
  /-- The components with references inside are listed in order. -/
  components_eq : d.components = start.components ++ components.filter g.isBroken
  /-- The pairs of all components are deferred. -/
  mem_pairs : ∀ p, p ∈ d.pairs ↔
    p ∈ start.pairs ∨ ∃ c ∈ components, ∃ deferred, g.settle c = .ok (some deferred) ∧ p ∈ deferred

/-- A run over components stops at one that cannot be settled, or settles all of them. -/
theorem execute_deferComponents (g : ReferenceGraph) (components : List (List String))
    (start : Deferral) (j : Journal) :
    (∃ c ∈ components, ∃ e, g.settle c = .error e ∧
      (execute (g.deferComponents start components) j).1 = .error e) ∨
    ∃ d, g.Settled components start d ∧
      (execute (g.deferComponents start components) j).1 = .ok d := by
  induction components generalizing start j with
  | nil => exact .inr ⟨start, ⟨by simp, by simp, by simp⟩, rfl⟩
  | cons c rest ih =>
    -- the component cannot be settled, has no circle, or gets deferred pairs
    rcases hc : g.settle c with e | _ | deferred
    · exact .inl ⟨c, List.mem_cons_self, e, hc, execute_deferComponents_error rest start j hc⟩
    · rw [execute_deferComponents_none rest start j hc]
      rcases ih start j with ⟨c', hc', e, he, hrun⟩ | ⟨d, hd, hrun⟩
      · exact .inl ⟨c', List.mem_cons_of_mem _ hc', e, he, hrun⟩
      · refine .inr ⟨d, ⟨List.forall_mem_cons.2 ⟨⟨none, hc⟩, hd.all⟩, ?_, fun p ↦ ?_⟩, hrun⟩
        · rw [hd.components_eq, List.filter_cons, isBroken, hc]
          rfl
        · rw [hd.mem_pairs]
          simp [hc]
    · obtain ⟨j', hj'⟩ := execute_deferComponents_some rest start j hc
      rw [hj']
      rcases ih ⟨start.pairs ++ deferred, start.components ++ [c]⟩ j' with
        ⟨c', hc', e, he, hrun⟩ | ⟨d, hd, hrun⟩
      · exact .inl ⟨c', List.mem_cons_of_mem _ hc', e, he, hrun⟩
      · refine .inr
          ⟨d, ⟨List.forall_mem_cons.2 ⟨⟨some deferred, hc⟩, hd.all⟩, ?_, fun p ↦ ?_⟩, hrun⟩
        · rw [hd.components_eq, List.filter_cons, isBroken, hc]
          simp
        · rw [hd.mem_pairs]
          simp [hc, or_assoc]

/-! ### The whole graph -/

/-- What comes of all components is a least deferral of the whole graph. -/
theorem Settled.leastDeferral (h : g.Settled g.digraph.components ⟨[], []⟩ d) :
    LeastDeferral g.references {p | p ∈ d.pairs} := by
  have hmem : ∀ p, p ∈ d.pairs ↔ ∃ c ∈ g.digraph.components, ∃ deferred,
      g.settle c = .ok (some deferred) ∧ p ∈ deferred := by simpa using h.mem_pairs
  refine ⟨fun p hp ↦ ?_, fun v hv ↦ ?_, fun r hr hD ↦ ?_⟩
  · obtain ⟨c, -, deferred, hsettle, hp⟩ := (hmem p).1 hp
    obtain ⟨refs, hin, hleast⟩ := leastDeferral_of_settle hsettle
    obtain ⟨r, hr, hpair⟩ := hleast.deferrable p hp
    exact ⟨r, ((mem_inside hin).1 hr).1, hpair⟩
  · -- a circle lies in the component of any of its objects
    have hedge : ∀ a b, EagerLink g.references {p | p ∈ d.pairs} a b → g.digraph.Edge a b :=
      fun a b hab ↦ (eagerLink_iff.1 hab).1
    obtain ⟨w, hvw, hwv⟩ := TransGen.head'_iff.1 hv
    obtain ⟨c, hc, hvc⟩ := Digraph.exists_component_of_mem (hedge _ _ hvw).source_mem
    obtain ⟨o, hsettle⟩ := h.all c hc
    obtain ⟨refs, hin⟩ := exists_inside_of_settle hsettle
    have hinside := Digraph.transGen_inside hedge hc hvc hv (.refl _ v)
    have hlink : ∀ a b, (EagerLink g.references {p | p ∈ d.pairs} a b ∧ a ∈ c ∧ b ∈ c) →
        ∃ r ∈ refs, r.pair = (a, b) ∧ (a, b) ∉ d.pairs := by
      rintro a b ⟨⟨r, hr, hp, hD⟩, ha, hb⟩
      obtain ⟨rfl, rfl⟩ := Prod.mk.inj hp
      exact ⟨r, (mem_inside hin).2 ⟨hr, ha, hb⟩, hp, hD⟩
    rcases settle_cases hin with ⟨rfl, -⟩ | ⟨-, -, herr⟩ | ⟨-, deferred, hok, hleast⟩
    · obtain ⟨b, hvb, -⟩ := TransGen.head'_iff.1 hinside
      obtain ⟨r, hr, -⟩ := hlink v b hvb
      exact List.not_mem_nil hr
    · rw [hsettle] at herr
      cases herr
    · refine hleast.noCircle v (TransGen.mono (fun a b hab ↦ ?_) _ _ hinside)
      obtain ⟨r, hr, hp, hD⟩ := hlink a b hab
      exact ⟨r, hr, hp, fun hmem' ↦ hD ((hmem _).2 ⟨c, hc, deferred, hok, hmem'⟩)⟩
  · obtain ⟨c, hc, deferred, hsettle, hp⟩ := (hmem _).1 hD
    obtain ⟨refs, hin, hleast⟩ := leastDeferral_of_settle hsettle
    obtain ⟨s, hs, hsp, -⟩ := hleast.deferrable _ hp
    obtain rfl : s = r := g.pairsDistinct_references s ((mem_inside hin).1 hs).1 r hr hsp
    refine ReflTransGen.mono ?_ _ _ (hleast.needed s hs hp)
    rintro a b ⟨t, ht, htp, htD, hkey⟩
    refine ⟨t, ((mem_inside hin).1 ht).1, htp, fun hmem' ↦ ?_, hkey⟩
    -- a pair inside this component is no pair of another one
    obtain ⟨c', hc', deferred', hsettle', hp'⟩ := (hmem _).1 hmem'
    obtain ⟨refs', hin', hleast'⟩ := leastDeferral_of_settle hsettle'
    obtain ⟨t', ht', htp', -⟩ := hleast'.deferrable _ hp'
    have hta : t.source = t'.source := (Prod.mk.inj (htp.trans htp'.symm)).1
    have htc : t.source ∈ c := ((mem_inside hin).1 ht).2.1
    have htc' : t.source ∈ c' := hta ▸ ((mem_inside hin').1 ht').2.1
    obtain rfl := Digraph.component_unique hc hc' htc htc'
    obtain rfl : deferred = deferred' :=
      Option.some.inj (Except.ok.inj (hsettle.symm.trans hsettle'))
    exact htD hp'

/-- No cycles are left exactly if no object comes back to itself by links that are bound at once. -/
theorem cyclesWithout_eq_nil_iff {pairs : List (String × String)} :
    g.cyclesWithout pairs = [] ↔ ∀ v, ¬ TransGen (EagerLink g.references {p | p ∈ pairs}) v v := by
  have hedge : (g.digraph.without pairs).Edge = EagerLink g.references {p | p ∈ pairs} := by
    funext v w
    exact propext (Digraph.edge_without.trans (eagerLink_iff (D := {p | p ∈ pairs})).symm)
  rw [cyclesWithout, Digraph.cycles_eq_nil_iff, Digraph.Acyclic, hedge]

/-- Deferring stops at a component that cannot be settled, or settles all of them. Circles are never
left. -/
theorem execute_defer (g : ReferenceGraph) (j : Journal) :
    (∃ c ∈ g.digraph.components, ∃ e, g.settle c = .error e ∧ (execute g.defer j).1 = .error e) ∨
    ∃ d, g.Settled g.digraph.components ⟨[], []⟩ d ∧ (execute g.defer j).1 = .ok d := by
  rw [defer]
  rcases hrun : execute (g.deferComponents ⟨[], []⟩ g.digraph.components) j with ⟨r, j'⟩
  rcases execute_deferComponents g g.digraph.components ⟨[], []⟩ j with
    ⟨c, hc, e, he, hr⟩ | ⟨d, hd, hr⟩
  · rw [hrun] at hr
    obtain rfl : r = .error e := hr
    exact .inl ⟨c, hc, e, he, by rw [execute_bind_error hrun]⟩
  · rw [hrun] at hr
    obtain rfl : r = .ok d := hr
    have hleft : (g.cyclesWithout d.pairs).isEmpty = true :=
      List.isEmpty_iff.2 (cyclesWithout_eq_nil_iff.2 hd.leastDeferral.noCircle)
    refine .inr ⟨d, hd, ?_⟩
    rw [execute_bind_ok hrun]
    simp only [hleft]
    rfl

/-- A deferral settles the components one by one. -/
theorem settled_of_defer (h : (execute g.defer j).1 = .ok d) :
    g.Settled g.digraph.components ⟨[], []⟩ d := by
  rcases execute_defer g j with ⟨c, -, e, -, hrun⟩ | ⟨d', hd, hrun⟩
  · rw [h] at hrun
    cases hrun
  · rw [h] at hrun
    cases hrun
    exact hd

/-- Only graphs whose references all lead to their objects have their references deferred. -/
theorem Settled.closed (h : g.Settled g.digraph.components ⟨[], []⟩ d) : g.Closed := by
  intro r hr
  have hedge : g.digraph.Edge r.source r.target := edge_digraph_iff.2 ⟨r, hr, rfl⟩
  obtain ⟨c, hc, htarget⟩ := Digraph.exists_component_of_mem hedge.target_mem
  obtain ⟨o, hsettle⟩ := h.all c hc
  exact exists_inside_iff.1 (exists_inside_of_settle hsettle) _ htarget

/-- A component is broken exactly if it is cyclic. -/
theorem Settled.isBroken_iff (h : g.Settled g.digraph.components ⟨[], []⟩ d)
    (hc : c ∈ g.digraph.components) :
    g.isBroken c = true ↔ g.digraph.isCyclicComponent c = true := by
  obtain ⟨o, hsettle⟩ := h.all c hc
  obtain ⟨refs, hin⟩ := exists_inside_of_settle hsettle
  have hedges : (∃ v ∈ c, ∃ w ∈ c, g.digraph.Edge v w) ↔ refs ≠ [] := by
    constructor
    · rintro ⟨v, hv, w, hw, hvw⟩
      obtain ⟨r, hr, hp⟩ := edge_digraph_iff.1 hvw
      obtain ⟨rfl, rfl⟩ := Prod.mk.inj hp
      exact List.ne_nil_of_mem ((mem_inside hin).2 ⟨hr, hv, hw⟩)
    · intro hne
      obtain ⟨r, hr⟩ := List.exists_mem_of_ne_nil refs hne
      obtain ⟨hr, hsource, htarget⟩ := (mem_inside hin).1 hr
      exact ⟨_, hsource, _, htarget, edge_digraph_iff.2 ⟨r, hr, rfl⟩⟩
  rw [Digraph.isCyclicComponent_iff hc, hedges, isBroken]
  rcases settle_cases hin with ⟨hnil, hs⟩ | ⟨-, -, hs⟩ | ⟨hne, deferred, hs, -⟩
  · simp [hs, hnil]
  · rw [hs] at hsettle
    cases hsettle
  · simp [hs, hne]

/-- The listed components are those with circles, in the order of all components. -/
theorem Settled.components_eq_cycles (h : g.Settled g.digraph.components ⟨[], []⟩ d) :
    d.components = g.cyclesWithout [] := by
  have hall : g.digraph.without [] = g.digraph := by
    simp [Digraph.without]
  rw [h.components_eq, List.nil_append, cyclesWithout, hall, Digraph.cycles]
  exact List.filter_congr fun c hc ↦ Bool.eq_iff_iff.2 (h.isBroken_iff hc)

/-- In a graph whose references all lead to its objects, a component that cannot be settled has a
circle of references that cannot be deferred. -/
theorem Closed.settle_error (hg : g.Closed) (hc : c ∈ g.digraph.components)
    (h : g.settle c = .error e) :
    e = .unbreakable c ∧ ∃ v, TransGen (RequiredLink g.references) v v := by
  have hnodes : ∀ v ∈ c, v ∈ g.nodes := fun v hv ↦
    hg.mem_nodes (Digraph.mem_vertices_of_mem_component hc hv)
  obtain ⟨refs, hin⟩ := exists_inside_iff.2 hnodes
  rcases settle_cases hin with ⟨-, hs⟩ | ⟨-, ⟨v, hv⟩, hs⟩ | ⟨-, deferred, hs, -⟩
  · rw [hs] at h
    cases h
  · rw [hs] at h
    cases h
    refine ⟨rfl, v, TransGen.mono ?_ _ _ hv⟩
    rintro a b ⟨r, hr, hp, hall⟩
    exact ⟨r, ((mem_inside hin).1 hr).1, hp, hall⟩
  · rw [hs] at h
    cases h

/-- A graph whose references all lead to its objects has its references deferred, unless some that
cannot be deferred form a circle. -/
theorem Closed.execute_defer (hg : g.Closed) (j : Journal) :
    (∃ c, (execute g.defer j).1 = .error (.unbreakable c) ∧
      ∃ v, TransGen (RequiredLink g.references) v v) ∨
    ∃ d, (execute g.defer j).1 = .ok d ∧ g.Settled g.digraph.components ⟨[], []⟩ d := by
  rcases ReferenceGraph.execute_defer g j with ⟨c, hc, e, he, hrun⟩ | ⟨d, hd, hrun⟩
  · obtain ⟨rfl, hcircle⟩ := hg.settle_error hc he
    exact .inl ⟨c, hrun, hcircle⟩
  · exact .inr ⟨d, hrun, hd⟩

/-- What is deferred is a deferrable reference inside a component that was broken. -/
theorem Settled.component_of_mem (h : g.Settled g.digraph.components ⟨[], []⟩ d)
    {p : String × String} (hp : p ∈ d.pairs) :
    ∃ r ∈ g.references, r.pair = p ∧ r.rank < 2 ∧ ∃ c ∈ d.components, p.1 ∈ c ∧ p.2 ∈ c := by
  obtain ⟨c, hc, deferred, hsettle, hp⟩ := ((h.mem_pairs p).1 hp).resolve_left List.not_mem_nil
  obtain ⟨refs, hin, hleast⟩ := leastDeferral_of_settle hsettle
  obtain ⟨r, hr, rfl, hrank⟩ := hleast.deferrable p hp
  obtain ⟨hr, hsource, htarget⟩ := (mem_inside hin).1 hr
  have hbroken : g.isBroken c = true := by
    rw [isBroken, hsettle]
  refine ⟨r, hr, rfl, hrank, c, ?_, hsource, htarget⟩
  rw [h.components_eq]
  exact List.mem_append_right _ (List.mem_filter.2 ⟨hc, hbroken⟩)

/-! ### The outcome -/

/-- **Deferring settles every graph whose references lead to its objects.** It succeeds or reports a
circle of references that cannot be deferred, the latter exactly when there is one. When it
succeeds, no circle is left, only references inside the listed components are deferred, none of them
made of required single values alone, and the listed components are those with circles. -/
theorem defer_settles (g : ReferenceGraph) (hg : g.Closed) :
    ((∃ d, g.defer.outcome.1 = .ok d) ∨ ∃ c, g.defer.outcome.1 = .error (.unbreakable c)) ∧
    ((∃ c, g.defer.outcome.1 = .error (.unbreakable c)) ↔
      ∃ v, TransGen (RequiredLink g.references) v v) ∧
    ∀ d, g.defer.outcome.1 = .ok d →
      (∀ v, ¬ TransGen (EagerLink g.references {p | p ∈ d.pairs}) v v) ∧
      (∀ p ∈ d.pairs, ∃ r ∈ g.references, r.pair = p ∧ r.rank < 2 ∧
        ∃ c ∈ d.components, p.1 ∈ c ∧ p.2 ∈ c) ∧
      d.components = g.cyclesWithout [] := by
  rw [Reporting.outcome_eq]
  refine ⟨?_, ⟨?_, ?_⟩, fun d hd ↦ ?_⟩
  · rcases hg.execute_defer [] with ⟨c, hrun, -⟩ | ⟨d, hrun, -⟩
    · exact .inr ⟨c, hrun⟩
    · exact .inl ⟨d, hrun⟩
  · rintro ⟨c, hc⟩
    rcases hg.execute_defer [] with ⟨-, -, hcircle⟩ | ⟨d, hrun, -⟩
    · exact hcircle
    · rw [hc] at hrun
      cases hrun
  · rintro ⟨v, hv⟩
    rcases hg.execute_defer [] with ⟨c, hrun, -⟩ | ⟨d, -, hd⟩
    · exact ⟨c, hrun⟩
    · exact absurd hv (hd.leastDeferral.no_required_circle g.pairsDistinct_references v)
  · have h := settled_of_defer hd
    exact ⟨h.leastDeferral.noCircle, fun p hp ↦ h.component_of_mem hp, h.components_eq_cycles⟩

/-- Groups that may name their owner and users with a list of their groups. -/
def groupAndUser : ReferenceGraph where
  table := ⟨[("group", ⟨[("user", [default])], by decide⟩),
    ("user", ⟨[("group", [{ (default : Attribute) with isArray := true }])], by decide⟩)], by
    decide⟩

theorem groupAndUser_not_requiredLink (v w : String) :
    ¬ RequiredLink groupAndUser.references v w := by
  rintro ⟨r, hr, -, hall⟩
  have hrank : ∀ r ∈ groupAndUser.references, r.rank ≠ 2 := by decide
  exact hrank r hr (Reference.rank_eq_two_iff.2 hall)

theorem defer_settles_groupAndUser :
    groupAndUser.Closed ∧ ∃ d, groupAndUser.defer.outcome.1 = .ok d ∧
      d.components = [["group", "user"]] ∧
      ∀ v, ¬ TransGen (EagerLink groupAndUser.references {p | p ∈ d.pairs}) v v := by
  have hclosed : groupAndUser.Closed := by
    unfold Closed
    decide
  obtain ⟨hout, hiff, hok⟩ := defer_settles groupAndUser hclosed
  have hcircle : ¬ ∃ c, groupAndUser.defer.outcome.1 = .error (.unbreakable c) := fun h ↦ by
    obtain ⟨v, hv⟩ := hiff.1 h
    obtain ⟨w, hvw, -⟩ := TransGen.head'_iff.1 hv
    exact groupAndUser_not_requiredLink v w hvw
  obtain ⟨d, hd⟩ := hout.resolve_right hcircle
  obtain ⟨hno, -, hcomponents⟩ := hok d hd
  exact ⟨hclosed, d, hd, hcomponents.trans (by decide +kernel), hno⟩

end EventSchema.ReferenceGraph
