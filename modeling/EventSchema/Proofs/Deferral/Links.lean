import EventSchema.ReferenceGraph
import EventSchema.Proofs.Digraph.Walks
import Mathlib.Data.Prod.Lex
import Mathlib.Data.Set.Basic
import Mathlib.Data.String.Basic

/-!
# Links and least deferrals

Three relations between objects, all read off a list of references and a set `D` of pairs that are
bound late: a reference that is bound at once (`EagerLink`), one of required single values alone
(`RequiredLink`), and one that is bound at once and harder to bind late than a given one
(`HarderLink`).

A set of pairs is a *least deferral* when it holds deferrable references only, leaves no circle, and
each of its references would close a circle of references that are all harder to bind late. The
order by `Reference.key` then settles reference after reference, hardest first, whether it belongs
to the set: there is at most one least deferral (`LeastDeferral.unique`).
-/

namespace EventSchema

open Relation

namespace Reference

/-! ### Ranks and keys -/

theorem rank_le_two (r : Reference) : r.rank ≤ 2 := by
  unfold rank
  split
  · omega
  · split <;> omega

theorem isDeferrable_iff {r : Reference} : r.isDeferrable = true ↔ r.rank < 2 := by
  rw [isDeferrable, decide_eq_true_iff]

theorem rank_eq_two_of_not_deferrable {r : Reference} (h : ¬ r.isDeferrable = true) :
    r.rank = 2 := by
  rw [isDeferrable_iff] at h
  have := r.rank_le_two
  omega

/-- The references that cannot be bound late are those of required single values alone. -/
theorem rank_eq_two_iff {r : Reference} :
    r.rank = 2 ↔ ∀ a ∈ r.attributes, a.isRequired = true ∧ a.isArray = false := by
  unfold rank
  split
  · next h =>
    obtain ⟨a, ha, harray⟩ := List.any_eq_true.1 h
    exact ⟨fun h ↦ absurd h (by omega), fun h ↦ by simp [(h a ha).2] at harray⟩
  · next harray =>
    have harray : ∀ a ∈ r.attributes, a.isArray = false := by simpa using harray
    split
    · next h =>
      obtain ⟨a, ha, hreq⟩ := List.any_eq_true.1 h
      exact ⟨fun h ↦ absurd h (by omega), fun h ↦ by simp [(h a ha).1] at hreq⟩
    · next hreq =>
      have hreq : ∀ a ∈ r.attributes, a.isRequired = true := by simpa using hreq
      exact ⟨fun _ a ha ↦ ⟨hreq a ha, harray a ha⟩, fun _ ↦ rfl⟩

/-- What references are ordered by, easiest to bind late first. -/
def key (r : Reference) : ℕ ×ₗ String ×ₗ String := toLex (r.rank, toLex (r.source, r.target))

theorem key_le_iff {r s : Reference} :
    r.key ≤ s.key ↔ r.rank < s.rank ∨ r.rank = s.rank ∧
      (r.source < s.source ∨ r.source = s.source ∧ r.target ≤ s.target) := by
  rw [key, key, Prod.Lex.toLex_le_toLex, Prod.Lex.toLex_le_toLex]

theorem before_iff {r s : Reference} : r.before s = true ↔ r.key ≤ s.key := by
  simp [before, key_le_iff]

/-- References with one key join the same objects. -/
theorem pair_eq_of_key_eq {r s : Reference} (h : r.key = s.key) : r.pair = s.pair := by
  have h := congrArg (fun k ↦ (ofLex (ofLex k).2)) h
  exact h

theorem key_lt_of_rank_lt {r s : Reference} (h : r.rank < s.rank) : r.key < s.key :=
  Prod.Lex.toLex_lt_toLex.2 (.inl h)

theorem rank_le_of_key_lt {r s : Reference} (h : r.key < s.key) : r.rank ≤ s.rank := by
  rcases key_le_iff.1 h.le with h | h
  · exact h.le
  · exact h.1.le

theorem key_noCycle : ∀ r : Reference, ¬ TransGen (fun r s ↦ r.key < s.key) r r := by
  have hlt : ∀ r s : Reference, TransGen (fun r s ↦ r.key < s.key) r s → r.key < s.key := by
    intro r s h
    induction h with
    | single h => exact h
    | tail _ h ih => exact ih.trans h
  exact fun r h ↦ lt_irrefl _ (hlt r r h)

end Reference

/-! ### Links -/

section Links

variable {refs more : List Reference} {D E : Set (String × String)} {e : Reference} {v w : String}

/-- A reference leads from one object to the other and is bound at once. -/
def EagerLink (refs : List Reference) (D : Set (String × String)) (v w : String) : Prop :=
  ∃ r ∈ refs, r.pair = (v, w) ∧ (v, w) ∉ D

/-- A reference of required single values alone leads from one object to the other. -/
def RequiredLink (refs : List Reference) (v w : String) : Prop :=
  ∃ r ∈ refs, r.pair = (v, w) ∧ ∀ a ∈ r.attributes, a.isRequired = true ∧ a.isArray = false

/-- A reference that is bound at once leads from one object to the other, and it is harder to bind
late than `e` or cannot be bound late at all. -/
def HarderLink (refs : List Reference) (D : Set (String × String)) (e : Reference)
    (v w : String) : Prop :=
  ∃ r ∈ refs, r.pair = (v, w) ∧ (v, w) ∉ D ∧ (r.rank = 2 ∨ e.key < r.key)

theorem HarderLink.eager (h : HarderLink refs D e v w) : EagerLink refs D v w :=
  let ⟨r, hr, hp, hD, _⟩ := h
  ⟨r, hr, hp, hD⟩

theorem HarderLink.anti (hDE : E ⊆ D) (h : HarderLink refs D e v w) : HarderLink refs E e v w :=
  let ⟨r, hr, hp, hD, hkey⟩ := h
  ⟨r, hr, hp, fun hE ↦ hD (hDE hE), hkey⟩

/-- No two references join the same objects. -/
def PairsDistinct (refs : List Reference) : Prop :=
  ∀ r ∈ refs, ∀ s ∈ refs, r.pair = s.pair → r = s

/-- The deferrals that are neither too large nor too small. -/
structure LeastDeferral (refs : List Reference) (D : Set (String × String)) : Prop where
  /-- Only references that can be bound late are. -/
  deferrable : ∀ p ∈ D, ∃ r ∈ refs, r.pair = p ∧ r.rank < 2
  /-- The references that are bound at once form no circle. -/
  noCircle : ∀ v, ¬ TransGen (EagerLink refs D) v v
  /-- Each reference that is bound late would close a circle of harder ones. -/
  needed : ∀ r ∈ refs, r.pair ∈ D → ReflTransGen (HarderLink refs D r) r.target r.source

namespace LeastDeferral

/-- Putting back any reference closes a circle. -/
theorem circle_of_putting_back (h : LeastDeferral refs D) {r : Reference} (hr : r ∈ refs)
    (hrD : r.pair ∈ D) : TransGen (EagerLink refs (D \ {r.pair})) r.source r.source := by
  have hback : ReflTransGen (EagerLink refs (D \ {r.pair})) r.target r.source :=
    ReflTransGen.mono (fun v w hvw ↦ (hvw.anti Set.sdiff_subset).eager) _ _ (h.needed r hr hrD)
  exact TransGen.head' ⟨r, hr, rfl, fun hmem ↦ hmem.2 rfl⟩ hback

/-- Where a least deferral exists, the references that cannot be bound late form no circle. -/
theorem no_required_circle (hrefs : PairsDistinct refs) (h : LeastDeferral refs D) (v : String) :
    ¬ TransGen (RequiredLink refs) v v := by
  intro hv
  refine h.noCircle v (TransGen.mono ?_ _ _ hv)
  rintro a b ⟨r, hr, hp, hall⟩
  refine ⟨r, hr, hp, fun hD ↦ ?_⟩
  obtain ⟨s, hs, hsp, hrank⟩ := h.deferrable _ hD
  obtain rfl : s = r := hrefs s hs r hr (hsp.trans hp.symm)
  rw [Reference.rank_eq_two_iff.2 hall] at hrank
  exact lt_irrefl 2 hrank

/-- A reference of the second set belongs to the first if the sets agree on all harder ones. -/
theorem mem_of_agree (hrefs : PairsDistinct refs) (hD : LeastDeferral refs D)
    (hE : LeastDeferral refs E) {r : Reference} (hr : r ∈ refs)
    (hagree : ∀ s ∈ refs, r.key < s.key → (s.pair ∈ D ↔ s.pair ∈ E)) (hrE : r.pair ∈ E) :
    r.pair ∈ D := by
  by_contra hrD
  have hrank : r.rank < 2 := by
    obtain ⟨t, ht, htr, hrank⟩ := hE.deferrable _ hrE
    exact hrefs t ht r hr htr ▸ hrank
  -- the circle that the second set breaks at `r` is closed under the first
  have hback : ReflTransGen (EagerLink refs D) r.target r.source := by
    refine ReflTransGen.mono ?_ _ _ (hE.needed r hr hrE)
    rintro v w ⟨s, hs, hp, hsE, hkey⟩
    refine ⟨s, hs, hp, fun hsD ↦ ?_⟩
    rw [← hp] at hsE hsD
    have hlt : r.key < s.key := hkey.elim (fun h ↦ Reference.key_lt_of_rank_lt (h ▸ hrank)) id
    exact hsE ((hagree s hs hlt).1 hsD)
  exact hD.noCircle r.source (TransGen.head' ⟨r, hr, rfl, hrD⟩ hback)

/-- There is at most one least deferral: of the references on which two differ, consider one that is
hardest to bind late. -/
theorem unique (hrefs : PairsDistinct refs) (hD : LeastDeferral refs D)
    (hE : LeastDeferral refs E) : D = E := by
  have hall : ∀ r ∈ refs, (r.pair ∈ D ↔ r.pair ∈ E) := by
    by_contra hdiff
    simp only [not_forall] at hdiff
    obtain ⟨r, hr, hne⟩ := hdiff
    -- the hardest reference on which they differ is settled by those on which they agree
    classical
    let differing := refs.filter fun r ↦ ¬ (r.pair ∈ D ↔ r.pair ∈ E)
    have hdiffering : differing ≠ [] :=
      List.ne_nil_of_mem (List.mem_filter.2 ⟨hr, decide_eq_true hne⟩)
    obtain ⟨m, hm, hlast⟩ := exists_last_of_noCycle Reference.key_noCycle hdiffering
    obtain ⟨hm, hmne⟩ := List.mem_filter.1 hm
    have hagree : ∀ s ∈ refs, m.key < s.key → (s.pair ∈ D ↔ s.pair ∈ E) := by
      intro s hs hlt
      by_contra hsne
      exact hlast s (List.mem_filter.2 ⟨hs, decide_eq_true hsne⟩) hlt
    exact of_decide_eq_true hmne ⟨hE.mem_of_agree hrefs hD hm fun s hs h ↦ (hagree s hs h).symm,
      hD.mem_of_agree hrefs hE hm hagree⟩
  ext p
  constructor
  · intro hp
    obtain ⟨r, hr, rfl, -⟩ := hD.deferrable p hp
    exact (hall r hr).1 hp
  · intro hp
    obtain ⟨r, hr, rfl, -⟩ := hE.deferrable p hp
    exact (hall r hr).2 hp

end LeastDeferral

end Links

end EventSchema
