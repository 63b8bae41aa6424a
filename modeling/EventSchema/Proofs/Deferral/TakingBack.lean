import EventSchema.Deferral
import EventSchema.Proofs.Deferral.Links
import EventSchema.Proofs.Digraph.Acyclicity
import EventSchema.Proofs.Digraph.Walks
import Mathlib.Tactic.Tauto

/-!
# Taking references back

Inside a component all deferrable references start out deferred and are then taken back one after
another, hardest first. A step tries whether the component stays without circles.
`trial_acyclic_iff` says what that tests: a reference may be taken back exactly when its target does
not reach its source at once.

`TakenBack` is the invariant of the whole pass: there is no circle, every deferrable reference that
is no longer deferred was looked at, and each one that was looked at and stays deferred closes a
circle of harder ones. Later steps only take references away from the deferred ones, which keeps old
circles, and the order of the pass makes the references that a new circle uses harder
(`TakenBack.step`). At the end the deferred pairs are a least deferral
(`exists_leastDeferral_inside`).
-/

namespace EventSchema.ReferenceGraph

open Relation

variable {component : List String} {refs : List Reference} {deferred : List (String × String)}
  {r s : Reference} {v w : String}

/-! ### One step -/

theorem edge_eager_iff :
    (eager component refs deferred).Edge v w ↔ EagerLink refs {p | p ∈ deferred} v w := by
  rw [eager, Digraph.edge_without, Digraph.Edge, List.mem_map]
  constructor
  · rintro ⟨⟨r, hr, hp⟩, hD⟩
    exact ⟨r, hr, hp, hD⟩
  · rintro ⟨r, hr, hp, hD⟩
    exact ⟨⟨r, hr, hp⟩, hD⟩

theorem edge_eager (component : List String) (refs : List Reference)
    (deferred : List (String × String)) :
    (eager component refs deferred).Edge = EagerLink refs {p | p ∈ deferred} := by
  funext v w
  exact propext edge_eager_iff

theorem mem_trial {p : String × String} : p ∈ trial deferred r ↔ p ∈ deferred ∧ p ≠ r.pair := by
  simp [trial]

/-- Taking a reference back keeps a component without circles exactly when its target does not reach
its source by references that are bound at once. -/
theorem trial_acyclic_iff (hacyclic : (eager component refs deferred).Acyclic) (hr : r ∈ refs) :
    (eager component refs (trial deferred r)).Acyclic ↔
      ¬ (eager component refs deferred).Reaches r.target r.source := by
  constructor
  · intro htrial hreach
    have hedge : (eager component refs (trial deferred r)).Edge r.source r.target :=
      edge_eager_iff.2 ⟨r, hr, rfl, fun h ↦ (mem_trial.1 h).2 rfl⟩
    refine Digraph.not_acyclic_of_edge hedge (hreach.mono fun v w hvw ↦ ?_) htrial
    obtain ⟨s, hs, hp, hD⟩ := edge_eager_iff.1 hvw
    exact edge_eager_iff.2 ⟨s, hs, hp, fun h ↦ hD (mem_trial.1 h).1⟩
  · intro hreach
    refine hacyclic.of_extra_edge (fun v w hvw ↦ ?_) hreach
    obtain ⟨s, hs, hp, hD⟩ := edge_eager_iff.1 hvw
    by_cases hvr : (v, w) = r.pair
    · exact .inr (Prod.mk.inj hvr)
    · exact .inl (edge_eager_iff.2 ⟨s, hs, hp, fun h ↦ hD (mem_trial.2 ⟨h, hvr⟩)⟩)

/-! ### The whole pass -/

/-- What holds when the references of `seen` were looked at. -/
structure TakenBack (refs : List Reference) (seen : Reference → Prop)
    (deferred : List (String × String)) : Prop where
  /-- Only deferrable references are deferred. -/
  deferrable : ∀ p ∈ deferred, ∃ r ∈ refs, r.pair = p ∧ r.rank < 2
  /-- The others form no circle. -/
  noCircle : ∀ v, ¬ TransGen (EagerLink refs {p | p ∈ deferred}) v v
  /-- A deferrable reference that is not deferred was looked at. -/
  seen_of_eager : ∀ r ∈ refs, r.rank < 2 → r.pair ∉ deferred → seen r
  /-- A reference that was looked at and is deferred closes a circle of harder ones. -/
  needed : ∀ r ∈ refs, seen r → r.pair ∈ deferred →
    ReflTransGen (HarderLink refs {p | p ∈ deferred} r) r.target r.source

/-- Looking at one more reference, no harder than those that were looked at, keeps the invariant. -/
theorem TakenBack.step {seen : Reference → Prop} (component : List String)
    (hrefs : PairsDistinct refs) (h : TakenBack refs seen deferred) (hr : r ∈ refs)
    (hseen : ∀ s, seen s → r.key ≤ s.key) :
    TakenBack refs (fun s ↦ s = r ∨ seen s) (takeBack component refs deferred r) := by
  have hacyclic : (eager component refs deferred).Acyclic := by
    rw [Digraph.Acyclic, edge_eager]
    exact h.noCircle
  have htrial := trial_acyclic_iff hacyclic hr
  rw [takeBack]
  split
  · next hkept =>
    have hkept := Digraph.isAcyclic_iff.1 hkept
    rw [Digraph.Acyclic, edge_eager] at hkept
    refine ⟨fun p hp ↦ h.deferrable p (mem_trial.1 hp).1, hkept, ?_, ?_⟩
    · intro s hs hrank hD
      by_cases hsr : s.pair = r.pair
      · exact .inl (hrefs s hs r hr hsr)
      · exact .inr (h.seen_of_eager s hs hrank fun hs ↦ hD (mem_trial.2 ⟨hs, hsr⟩))
    · rintro s hs (rfl | hsseen) hD
      · exact absurd rfl (mem_trial.1 hD).2
      · refine ReflTransGen.mono (fun v w hvw ↦ ?_) _ _ (h.needed s hs hsseen (mem_trial.1 hD).1)
        exact hvw.anti fun p hp ↦ (mem_trial.1 hp).1
  · next hcircle =>
    refine ⟨h.deferrable, h.noCircle, fun s hs hrank hD ↦ .inr (h.seen_of_eager s hs hrank hD), ?_⟩
    rintro s hs (rfl | hsseen) hD
    · -- a circle that the reference closes is a walk from its target to its source
      have hwalk := not_not.1 fun hreach ↦ hcircle (Digraph.isAcyclic_iff.2 (htrial.2 hreach))
      rw [Digraph.Reaches, edge_eager] at hwalk
      refine ReflTransGen.mono ?_ _ _ hwalk
      rintro v w ⟨t, ht, hp, htD⟩
      refine ⟨t, ht, hp, htD, ?_⟩
      -- what is bound at once is required or was looked at before `s`
      by_cases hrank : t.rank < 2
      · have htD' : t.pair ∉ deferred := fun h ↦ htD (hp ▸ h)
        refine .inr (lt_of_le_of_ne (hseen t (h.seen_of_eager t ht hrank htD')) fun hkey ↦ ?_)
        exact htD' (Reference.pair_eq_of_key_eq hkey ▸ hD)
      · have := t.rank_le_two
        exact .inl (by omega)
    · exact h.needed s hs hsseen hD

/-- A pass over references from hard to easy keeps the invariant. -/
theorem TakenBack.foldl {rest : List Reference} {seen : Reference → Prop}
    (component : List String) (hrefs : PairsDistinct refs) (h : TakenBack refs seen deferred)
    (hrest : ∀ r ∈ rest, r ∈ refs)
    (hsorted : rest.Pairwise fun r s ↦ s.key ≤ r.key)
    (hseen : ∀ r ∈ rest, ∀ s, seen s → r.key ≤ s.key) :
    TakenBack refs (fun s ↦ s ∈ rest ∨ seen s)
      (rest.foldl (takeBack component refs) deferred) := by
  induction rest generalizing seen deferred with
  | nil => simpa using h
  | cons r rest ih =>
    obtain ⟨hr, hrest⟩ := List.forall_mem_cons.1 hrest
    obtain ⟨hfirst, hsorted⟩ := List.pairwise_cons.1 hsorted
    obtain ⟨hseenr, hseenrest⟩ := List.forall_mem_cons.1 hseen
    -- `r` is next, and counts as seen for the rest of the pass
    have hstep := h.step component hrefs hr hseenr
    have hnext := ih hstep hrest hsorted fun s hs t ht ↦ by
      rcases ht with rfl | ht
      · exact hfirst s hs
      · exact hseenrest s hs t ht
    have hseen' : (fun s ↦ s ∈ rest ∨ s = r ∨ seen s) = fun s ↦ s ∈ r :: rest ∨ seen s := by
      funext s
      simp only [List.mem_cons, eq_iff_iff]
      tauto
    rw [List.foldl_cons, ← hseen']
    exact hnext

/-! ### Deferring inside a component -/

theorem edge_required_iff :
    (Digraph.mk component
      ((refs.filter fun r ↦ !r.isDeferrable).map Reference.pair)).Edge v w ↔
        RequiredLink refs v w := by
  rw [Digraph.Edge, List.mem_map]
  constructor
  · rintro ⟨r, hr, hp⟩
    obtain ⟨hr, hdef⟩ := List.mem_filter.1 hr
    have hrank : r.rank = 2 := Reference.rank_eq_two_of_not_deferrable (by simpa using hdef)
    exact ⟨r, hr, hp, Reference.rank_eq_two_iff.1 hrank⟩
  · rintro ⟨r, hr, hp, hall⟩
    have hrank : r.rank = 2 := Reference.rank_eq_two_iff.2 hall
    exact ⟨r, List.mem_filter.2 ⟨hr, by simp [Reference.isDeferrable, hrank]⟩, hp⟩

theorem required_acyclic_iff (component : List String) (refs : List Reference) :
    (Digraph.mk component
      ((refs.filter fun r ↦ !r.isDeferrable).map Reference.pair)).isAcyclic = true ↔
        ∀ v, ¬ TransGen (RequiredLink refs) v v := by
  have hedge : (Digraph.mk component
      ((refs.filter fun r ↦ !r.isDeferrable).map Reference.pair)).Edge = RequiredLink refs := by
    funext v w
    exact propext edge_required_iff
  rw [Digraph.isAcyclic_iff, Digraph.Acyclic, hedge]

/-- Deferring fails exactly for components with a circle of references that cannot be deferred. -/
theorem deferInside_eq_error (component : List String)
    (h : ¬ ∀ v, ¬ TransGen (RequiredLink refs) v v) :
    deferInside component refs = .error (.unbreakable component) := by
  rw [deferInside, if_neg fun hacyclic ↦ h ((required_acyclic_iff component refs).1 hacyclic)]

theorem takenBack_start (h : ∀ v, ¬ TransGen (RequiredLink refs) v v) :
    TakenBack refs (fun _ ↦ False)
      ((refs.filter Reference.isDeferrable).map Reference.pair) := by
  have hmem : ∀ p, p ∈ (refs.filter Reference.isDeferrable).map Reference.pair ↔
      ∃ r ∈ refs, r.pair = p ∧ r.rank < 2 := by
    intro p
    simp only [List.mem_map, List.mem_filter, Reference.isDeferrable_iff, and_assoc]
    exact exists_congr fun r ↦ and_congr_right fun _ ↦ and_comm
  refine ⟨fun p hp ↦ (hmem p).1 hp, fun v hv ↦ h v ?_, ?_, fun _ _ hfalse ↦ hfalse.elim⟩
  · refine TransGen.mono ?_ _ _ hv
    rintro v w ⟨r, hr, hp, hD⟩
    have hrank : ¬ r.rank < 2 := fun hlt ↦ hD ((hmem _).2 ⟨r, hr, hp, hlt⟩)
    have := r.rank_le_two
    exact ⟨r, hr, hp, Reference.rank_eq_two_iff.1 (by omega)⟩
  · intro r hr hrank hD
    exact hD ((hmem _).2 ⟨r, hr, rfl, hrank⟩)

/-- Without a circle of references that cannot be deferred, the deferred pairs of a component are a
least deferral of its references. -/
theorem exists_leastDeferral_inside (component : List String) (hrefs : PairsDistinct refs)
    (h : ∀ v, ¬ TransGen (RequiredLink refs) v v) :
    ∃ deferred, deferInside component refs = .ok deferred ∧
      LeastDeferral refs {p | p ∈ deferred} := by
  have hrequired := (required_acyclic_iff component refs).2 h
  refine ⟨_, by rw [deferInside, if_pos hrequired], ?_⟩
  set candidates := refs.filter Reference.isDeferrable with hcandidates
  have hperm := List.mergeSort_perm candidates fun r s ↦ s.before r
  have hsorted : (candidates.mergeSort fun r s ↦ s.before r).Pairwise fun r s ↦ s.key ≤ r.key := by
    refine (List.pairwise_mergeSort ?_ ?_ candidates).imp fun h ↦ Reference.before_iff.1 h
    · intro r s t hrs hst
      rw [Reference.before_iff] at hrs hst ⊢
      exact hst.trans hrs
    · intro r s
      rw [Bool.or_eq_true, Reference.before_iff, Reference.before_iff]
      exact le_total _ _
  have hall := (takenBack_start h).foldl component hrefs
    (fun r hr ↦ (List.mem_filter.1 (hperm.mem_iff.1 hr)).1) hsorted fun _ _ _ hfalse ↦ hfalse.elim
  refine ⟨hall.deferrable, hall.noCircle, fun r hr hD ↦ hall.needed r hr (.inl ?_) hD⟩
  -- a deferred reference is a candidate, so it was looked at
  obtain ⟨s, hs, hp, hrank⟩ := hall.deferrable _ hD
  obtain rfl : s = r := hrefs s hs r hr hp
  exact hperm.mem_iff.2 (List.mem_filter.2 ⟨hr, Reference.isDeferrable_iff.2 hrank⟩)

end EventSchema.ReferenceGraph
