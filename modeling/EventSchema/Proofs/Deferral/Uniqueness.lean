import EventSchema.Proofs.Deferral.Objects
import EventSchema.Proofs.Deferral.Outcome

/-!
# The deferral is the only one

What `ReferenceGraph.defer` returns is the least deferral of its graph, and no other set is
(`defer_isLeast`). Since a least deferral is described by pairs and ranks alone, two schemas whose
objects have the same attributes in whatever order have the same deferral.
-/

namespace EventSchema

open Relation

/-! ### References that differ in the order of attributes -/

section Alike

variable {refs refs' : List Reference} {D : Set (String × String)} {r r' : Reference}
  {v w : String}

namespace Reference

/-- Two references join the same objects by the same attributes in some order. -/
def Alike (r r' : Reference) : Prop := r.pair = r'.pair ∧ r.attributes.Perm r'.attributes

theorem Alike.symm (h : r.Alike r') : r'.Alike r := ⟨h.1.symm, h.2.symm⟩

theorem Alike.rank_eq (h : r.Alike r') : r.rank = r'.rank := by
  rw [rank, rank, h.2.any_eq, h.2.any_eq]

/-- References that are alike have the same key. -/
theorem Alike.key_eq (h : r.Alike r') : r.key = r'.key := by
  obtain ⟨hsource, htarget⟩ := Prod.mk.inj h.1
  rw [key, key, h.rank_eq, hsource, htarget]

end Reference

/-- Every reference of one list is alike to one of the other. -/
def AlikeReferences (refs refs' : List Reference) : Prop := ∀ r ∈ refs, ∃ r' ∈ refs', r.Alike r'

/-- Graphs with alike references have the same links. -/
theorem AlikeReferences.eagerLink (h : AlikeReferences refs refs') (hvw : EagerLink refs D v w) :
    EagerLink refs' D v w :=
  let ⟨r, hr, hp, hD⟩ := hvw
  let ⟨r', hr', hrr'⟩ := h r hr
  ⟨r', hr', hrr'.1.symm.trans hp, hD⟩

theorem AlikeReferences.requiredLink (h : AlikeReferences refs refs')
    (hvw : RequiredLink refs v w) : RequiredLink refs' v w :=
  let ⟨r, hr, hp, hall⟩ := hvw
  let ⟨r', hr', hrr'⟩ := h r hr
  ⟨r', hr', hrr'.1.symm.trans hp, fun a ha ↦ hall a (hrr'.2.mem_iff.2 ha)⟩

/-- Graphs with alike references have the same links that are harder to defer. -/
theorem AlikeReferences.harderLink (h : AlikeReferences refs refs') (hrr' : r.Alike r')
    (hvw : HarderLink refs D r v w) : HarderLink refs' D r' v w := by
  obtain ⟨s, hs, hp, hD, hkey⟩ := hvw
  obtain ⟨s', hs', hss'⟩ := h s hs
  rw [hss'.rank_eq, hrr'.key_eq, hss'.key_eq] at hkey
  exact ⟨s', hs', hss'.1.symm.trans hp, hD, hkey⟩

/-- A least deferral does not depend on the order of the attributes. -/
theorem LeastDeferral.of_alike (h : AlikeReferences refs refs') (h' : AlikeReferences refs' refs)
    (hD : LeastDeferral refs D) : LeastDeferral refs' D := by
  refine ⟨fun p hp ↦ ?_, fun v hv ↦ ?_, fun r' hr' hr'D ↦ ?_⟩
  · obtain ⟨r, hr, rfl, hrank⟩ := hD.deferrable p hp
    obtain ⟨r', hr', hrr'⟩ := h r hr
    exact ⟨r', hr', hrr'.1.symm, hrr'.rank_eq ▸ hrank⟩
  · exact hD.noCircle v (TransGen.mono (fun _ _ ↦ h'.eagerLink) _ _ hv)
  · obtain ⟨r, hr, hr'r⟩ := h' r' hr'
    have hwalk := hD.needed r hr (hr'r.1 ▸ hr'D)
    obtain ⟨hsource, htarget⟩ := Prod.mk.inj hr'r.1
    rw [hsource, htarget]
    exact ReflTransGen.mono (fun _ _ ↦ h.harderLink hr'r.symm) _ _ hwalk

end Alike

/-! ### Objects in another order -/

/-- Two tables hold the same objects up to order: under each name none, or objects with the same
attributes in some order. -/
def SameObjects (objects objects' : Table Entity) : Prop :=
  ∀ n, Option.Rel (fun e e' ↦ e.attributes.entries.Perm e'.attributes.entries)
    (objects.get? n) (objects'.get? n)

namespace SameObjects

variable {objects objects' : Table Entity} {n : String}

/-- An object has the same attributes in both tables. -/
theorem exists_left (h : SameObjects objects objects') {e : Entity} (he : objects.get? n = some e) :
    ∃ e', objects'.get? n = some e' ∧ e.attributes.entries.Perm e'.attributes.entries := by
  have hn := h n
  rw [he] at hn
  cases hn' : objects'.get? n with
  | none =>
    rw [hn'] at hn
    cases hn
  | some e' =>
    rw [hn'] at hn
    cases hn with
    | some hperm => exact ⟨e', rfl, hperm⟩

theorem symm (h : SameObjects objects objects') : SameObjects objects' objects := by
  intro n
  have hn := h n
  revert hn
  generalize objects.get? n = o
  generalize objects'.get? n = o'
  rintro (hperm | _)
  · exact .some hperm.symm
  · exact .none

/-- Tables of the same objects have alike references. -/
theorem alikeReferences (h : SameObjects objects objects') :
    AlikeReferences (ReferenceGraph.ofObjects objects).references
      (ReferenceGraph.ofObjects objects').references := by
  intro r hr
  obtain ⟨e, he, hattributes, hne⟩ := ReferenceGraph.mem_references_ofObjects.1 hr
  obtain ⟨e', he', hperm⟩ := h.exists_left he
  have hfilter : r.attributes.Perm
      (e'.attributes.values.filter (ReferenceGraph.refersTo r.target)) :=
    hattributes ▸ (hperm.map Prod.snd).filter _
  refine ⟨⟨r.source, r.target, e'.attributes.values.filter (ReferenceGraph.refersTo r.target)⟩,
    ReferenceGraph.mem_references_ofObjects.2 ⟨e', he', rfl, fun hnil ↦ hne ?_⟩, rfl, hfilter⟩
  have hnil : e'.attributes.values.filter (ReferenceGraph.refersTo r.target) = [] := hnil
  exact (hnil ▸ hfilter).eq_nil

theorem mem_names (h : SameObjects objects objects') (hn : n ∈ objects.names) :
    n ∈ objects'.names := by
  obtain ⟨e, he⟩ := Table.mem_names_iff.1 hn
  obtain ⟨e', he', -⟩ := h.exists_left he
  exact Table.mem_names_iff.2 ⟨e', he'⟩

/-- Tables of the same objects have closed graphs both or none. -/
theorem closed (h : SameObjects objects objects')
    (hclosed : (ReferenceGraph.ofObjects objects).Closed) :
    (ReferenceGraph.ofObjects objects').Closed := by
  intro r' hr'
  obtain ⟨r, hr, hr'r⟩ := h.symm.alikeReferences r' hr'
  have htarget : r.target ∈ objects.names :=
    ReferenceGraph.mem_nodes_ofObjects.1 (hclosed r hr)
  rw [(Prod.mk.inj hr'r.1).2]
  exact ReferenceGraph.mem_nodes_ofObjects.2 (h.mem_names htarget)

end SameObjects

namespace ReferenceGraph

variable {g : ReferenceGraph} {d : Deferral} {objects objects' : Table Entity}

/-- What is deferred is a least deferral. -/
theorem leastDeferral_of_defer (h : g.defer.outcome.1 = .ok d) :
    LeastDeferral g.references {p | p ∈ d.pairs} := (settled_of_defer h).leastDeferral

/-- Objects in another order have the same references deferred. -/
theorem exists_defer_of_sameObjects (hsame : SameObjects objects objects')
    (h : (ofObjects objects).defer.outcome.1 = .ok d) :
    ∃ d', (ofObjects objects').defer.outcome.1 = .ok d' ∧
      {p | p ∈ d'.pairs} = {p | p ∈ d.pairs} := by
  have hsettled := settled_of_defer h
  have hleast := hsettled.leastDeferral
  have halike := hsame.alikeReferences
  have halike' := hsame.symm.alikeReferences
  rcases (hsame.closed hsettled.closed).execute_defer [] with ⟨-, -, v, hv⟩ | ⟨d', hd', hsettled'⟩
  · exact absurd (TransGen.mono (fun _ _ ↦ halike'.requiredLink) _ _ hv)
      (hleast.no_required_circle (pairsDistinct_references _) v)
  · exact ⟨d', hd', hsettled'.leastDeferral.unique (pairsDistinct_references _)
      (hleast.of_alike halike halike')⟩

/-- **What is deferred is the only least deferral.** Each deferred reference closes a circle of
references that are bound at once and harder to defer, and no other set of deferrable references has
this property and leaves no circle. So no deferred reference can be put back, a deferred reference
that is no array closes a circle without arrays, and the order of objects and attributes is of no
account. -/
theorem defer_isLeast (g : ReferenceGraph) (d : Deferral) (h : g.defer.outcome.1 = .ok d) :
    LeastDeferral g.references {p | p ∈ d.pairs} ∧
    (∀ D, LeastDeferral g.references D → D = {p | p ∈ d.pairs}) ∧
    (∀ r ∈ g.references, r.pair ∈ d.pairs →
      TransGen (EagerLink g.references ({p | p ∈ d.pairs} \ {r.pair})) r.source r.source) ∧
    (∀ r ∈ g.references, r.pair ∈ d.pairs → r.rank = 1 →
      ReflTransGen (fun v w ↦ ∃ s ∈ g.references, s.pair = (v, w) ∧ (v, w) ∉ d.pairs ∧ 1 ≤ s.rank)
        r.target r.source) ∧
    ∀ objects objects', g = ofObjects objects → SameObjects objects objects' →
      ∃ d', (ofObjects objects').defer.outcome.1 = .ok d' ∧
        {p | p ∈ d'.pairs} = {p | p ∈ d.pairs} := by
  have hleast := leastDeferral_of_defer h
  refine ⟨hleast, fun D hD ↦ hD.unique g.pairsDistinct_references hleast,
    fun r hr hrD ↦ hleast.circle_of_putting_back hr hrD, fun r hr hrD hrank ↦ ?_, ?_⟩
  · refine ReflTransGen.mono ?_ _ _ (hleast.needed r hr hrD)
    rintro v w ⟨s, hs, hp, hD, hkey⟩
    refine ⟨s, hs, hp, hD, ?_⟩
    rcases hkey with hkey | hkey
    · omega
    · exact hrank ▸ Reference.rank_le_of_key_lt hkey
  · rintro objects objects' rfl hsame
    exact exists_defer_of_sameObjects hsame h

/-- The list of groups is deferred, not the name of the owner. -/
theorem defer_isLeast_groupAndUser : ∃ d, groupAndUser.defer.outcome.1 = .ok d ∧
    {p | p ∈ d.pairs} = {("user", "group")} := by
  have hclosed : groupAndUser.Closed := by
    unfold Closed
    decide
  rcases hclosed.execute_defer [] with ⟨-, -, v, hv⟩ | ⟨d, hd, -⟩
  · obtain ⟨w, hvw, -⟩ := TransGen.head'_iff.1 hv
    exact absurd hvw (groupAndUser_not_requiredLink v w)
  refine ⟨d, hd, ((defer_isLeast groupAndUser d hd).2.1 _ ⟨?_, ?_, ?_⟩).symm⟩
  · rintro p rfl
    exact ⟨⟨"user", "group", _⟩, .tail _ (.head _), rfl, by decide⟩
  · have honly : ∀ v w, EagerLink groupAndUser.references {("user", "group")} v w →
        v = "group" ∧ w = "user" := by
      rintro v w ⟨r, hr, hp, hD⟩
      have hpairs : ∀ r ∈ groupAndUser.references,
          r.pair = ("group", "user") ∨ r.pair = ("user", "group") := by decide
      rcases hpairs r hr with h | h
      · exact Prod.mk.inj (hp.symm.trans h)
      · exact absurd (hp.symm.trans h) hD
    intro v hv
    obtain ⟨w, hvw, -⟩ := TransGen.head'_iff.1 hv
    obtain ⟨u, -, huv⟩ := TransGen.tail'_iff.1 hv
    exact absurd ((honly v w hvw).1.symm.trans (honly u v huv).2) (by decide)
  · intro r hr hrD
    have hrank : ∀ r ∈ groupAndUser.references, r.pair = ("user", "group") → r.rank = 0 := by decide
    have hother : ∀ s ∈ groupAndUser.references, s.pair = ("group", "user") →
        s.rank = 1 := by decide
    have hr0 : r.rank = 0 := hrank r hr hrD
    obtain ⟨hsource, htarget⟩ : r.source = "user" ∧ r.target = "group" := Prod.mk.inj hrD
    rw [hsource, htarget]
    obtain ⟨s, hs, hp⟩ : ∃ s ∈ groupAndUser.references, s.pair = ("group", "user") := by decide
    have hs1 : s.rank = 1 := hother s hs hp
    exact ReflTransGen.single ⟨s, hs, hp, by simp, .inr (Reference.key_lt_of_rank_lt (by omega))⟩

end ReferenceGraph

end EventSchema
