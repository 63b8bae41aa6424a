import EventSchema.Deferral
import EventSchema.Proofs.Digraph.Classes
import EventSchema.Proofs.Deferral.Links
import EventSchema.Proofs.Tables

/-!
# The references of a graph and of its components

A reference graph holds a reference for each entry of its tables (`mem_references`), so the pair of
objects settles the reference and every reference starts at an object of the graph. `inside`
collects the references with both ends in a component; it needs exactly that the objects of the
component are in the graph (`exists_inside_iff`).
-/

namespace EventSchema

open Relation

namespace ReferenceGraph

variable {g : ReferenceGraph} {r s : Reference} {v w : String} {c : List String}
  {refs : List Reference}

/-- The references of a graph are the entries of its tables. -/
theorem mem_references :
    r ∈ g.references ↔
      ∃ t, g.table.get? r.source = some t ∧ t.get? r.target = some r.attributes := by
  simp only [references, List.mem_flatMap, List.mem_map, Table.get?_eq_some_iff]
  constructor
  · rintro ⟨⟨source, t⟩, ht, ⟨target, attributes⟩, ha, rfl⟩
    exact ⟨t, ht, ha⟩
  · rintro ⟨t, ht, ha⟩
    exact ⟨(r.source, t), ht, (r.target, r.attributes), ha, rfl⟩

/-- No two references have the same source and target. -/
theorem pairsDistinct_references (g : ReferenceGraph) : PairsDistinct g.references := by
  rintro ⟨source, target, attributes⟩ hr ⟨source', target', attributes'⟩ hs hp
  obtain ⟨rfl, rfl⟩ : source = source' ∧ target = target' := Prod.mk.injEq .. ▸ hp
  obtain ⟨t, ht, ha⟩ := mem_references.1 hr
  obtain ⟨t', ht', ha'⟩ := mem_references.1 hs
  obtain rfl : t = t' := Option.some.inj (ht.symm.trans ht')
  obtain rfl : attributes = attributes' := Option.some.inj (ha.symm.trans ha')
  rfl

theorem source_mem_nodes (hr : r ∈ g.references) : r.source ∈ g.nodes :=
  let ⟨t, ht, _⟩ := mem_references.1 hr
  Table.mem_names_iff.2 ⟨t, ht⟩

/-- There is an edge for each reference and no other. -/
theorem edge_digraph_iff : g.digraph.Edge v w ↔ ∃ r ∈ g.references, r.pair = (v, w) :=
  List.mem_map

/-- What is bound at once are the edges that are not deferred. -/
theorem eagerLink_iff {D : Set (String × String)} :
    EagerLink g.references D v w ↔ g.digraph.Edge v w ∧ (v, w) ∉ D := by
  rw [edge_digraph_iff]
  constructor
  · rintro ⟨r, hr, hp, hD⟩
    exact ⟨⟨r, hr, hp⟩, hD⟩
  · rintro ⟨⟨r, hr, hp⟩, hD⟩
    exact ⟨r, hr, hp, hD⟩

/-- All references lead to objects of the graph. -/
def Closed (g : ReferenceGraph) : Prop := ∀ r ∈ g.references, r.target ∈ g.nodes

/-- In a closed graph all ends of edges are objects. -/
theorem Closed.mem_nodes (hg : g.Closed) (hv : v ∈ g.digraph.vertices) : v ∈ g.nodes := by
  rcases Digraph.mem_vertices.1 hv with hv | ⟨w, hvw | hwv⟩
  · exact hv
  · obtain ⟨r, hr, hp⟩ := edge_digraph_iff.1 hvw
    exact (Prod.mk.inj hp).1 ▸ source_mem_nodes hr
  · obtain ⟨r, hr, hp⟩ := edge_digraph_iff.1 hwv
    exact (Prod.mk.inj hp).2 ▸ hg r hr

/-! ### References inside a component -/

theorem outgoing?_eq_none_iff : g.outgoing? v = none ↔ v ∉ g.nodes := by
  rw [outgoing?, Option.map_eq_none_iff]
  exact Entries.get?_eq_none_iff

/-- The references that go out of an object are those with this source. -/
theorem mem_of_outgoing? (h : g.outgoing? v = some refs) :
    r ∈ refs ↔ r ∈ g.references ∧ r.source = v := by
  obtain ⟨t, ht, rfl⟩ := Option.map_eq_some_iff.1 h
  simp only [List.mem_map]
  constructor
  · rintro ⟨⟨target, attributes⟩, ha, rfl⟩
    exact ⟨mem_references.2 ⟨t, ht, Table.get?_eq_some_iff.2 ha⟩, rfl⟩
  · rintro ⟨hr, rfl⟩
    obtain ⟨t', ht', ha⟩ := mem_references.1 hr
    obtain rfl : t = t' := Option.some.inj (ht.symm.trans ht')
    exact ⟨(r.target, r.attributes), Table.get?_eq_some_iff.1 ha, rfl⟩

/-- One step of collecting: the references of a source with targets in the component. -/
def collect (g : ReferenceGraph) (component : List String) (found : List Reference)
    (source : String) : Except DeferralError (List Reference) :=
  match g.outgoing? source with
  | some refs => .ok (found ++ refs.filter fun r ↦ component.contains r.target)
  | none => .error (.nodeUndefined source)

/-- The references inside a component are collected source by source. -/
theorem inside_eq (g : ReferenceGraph) (component : List String) :
    g.inside component = component.foldlM (collect g component) [] := rfl

/-- A step collects the references of its source that stay in the component. -/
theorem mem_of_collect {found more : List Reference} (h : collect g c found v = .ok more) :
    v ∈ g.nodes ∧ ∀ r, r ∈ more ↔ r ∈ found ∨ r ∈ g.references ∧ r.source = v ∧ r.target ∈ c := by
  unfold collect at h
  split at h
  · next refs hrefs =>
    cases h
    refine ⟨?_, fun r ↦ ?_⟩
    · by_contra hv
      rw [outgoing?_eq_none_iff.2 hv] at hrefs
      cases hrefs
    · rw [List.mem_append, List.mem_filter, mem_of_outgoing? hrefs, List.contains_iff_mem,
        and_assoc]
  · cases h

/-- A step for an object of the graph succeeds. -/
theorem collect_of_mem (hv : v ∈ g.nodes) (c : List String) (found : List Reference) :
    ∃ more, collect g c found v = .ok more := by
  unfold collect
  split
  · exact ⟨_, rfl⟩
  · next h => exact absurd hv (outgoing?_eq_none_iff.1 h)

/-- What collecting from some sources finds. -/
theorem mem_of_foldlM_collect {sources : List String} {found : List Reference}
    (h : sources.foldlM (collect g c) found = .ok refs) :
    (∀ v ∈ sources, v ∈ g.nodes) ∧
      ∀ r, r ∈ refs ↔ r ∈ found ∨ r ∈ g.references ∧ r.source ∈ sources ∧ r.target ∈ c := by
  induction sources generalizing found with
  | nil =>
    cases h
    simp
  | cons v sources ih =>
    rw [List.foldlM_cons] at h
    rcases hv : collect g c found v with e | more
    · rw [hv] at h
      cases h
    · rw [hv] at h
      obtain ⟨hmem, hmore⟩ := mem_of_collect hv
      obtain ⟨hnodes, hrefs⟩ := ih h
      refine ⟨List.forall_mem_cons.2 ⟨hmem, hnodes⟩, fun r ↦ ?_⟩
      rw [hrefs, hmore, List.mem_cons]
      tauto

/-- Collecting from objects of the graph succeeds. -/
theorem foldlM_collect_of_mem {sources : List String} (hsources : ∀ v ∈ sources, v ∈ g.nodes)
    (c : List String) (found : List Reference) :
    ∃ refs, sources.foldlM (collect g c) found = .ok refs := by
  induction sources generalizing found with
  | nil => exact ⟨found, rfl⟩
  | cons v sources ih =>
    obtain ⟨hv, hsources⟩ := List.forall_mem_cons.1 hsources
    obtain ⟨more, hmore⟩ := collect_of_mem hv c found
    obtain ⟨refs, hrefs⟩ := ih hsources more
    exact ⟨refs, by rw [List.foldlM_cons, hmore]; exact hrefs⟩

/-- The references inside a component can be collected exactly when its objects are in the graph. -/
theorem exists_inside_iff : (∃ refs, g.inside c = .ok refs) ↔ ∀ v ∈ c, v ∈ g.nodes := by
  rw [inside_eq]
  exact ⟨fun ⟨_, h⟩ ↦ (mem_of_foldlM_collect h).1, fun h ↦ foldlM_collect_of_mem h c []⟩

/-- Inside a component are the references with both ends in it. -/
theorem mem_inside (h : g.inside c = .ok refs) :
    r ∈ refs ↔ r ∈ g.references ∧ r.source ∈ c ∧ r.target ∈ c := by
  rw [inside_eq] at h
  simpa using (mem_of_foldlM_collect h).2 r

theorem pairsDistinct_inside (h : g.inside c = .ok refs) : PairsDistinct refs :=
  fun r hr s hs ↦ g.pairsDistinct_references r ((mem_inside h).1 hr).1 s ((mem_inside h).1 hs).1

end ReferenceGraph

end EventSchema
