import EventSchema.Release.Generation
import Mathlib.Data.List.Sort

/-!
# Failures in the order of the versions

Failures are sorted by the places of their versions, and several failures of one version stay in
their order. So the sorted failures are known from those of each version
(`eq_of_pairwise_of_filter_eq`), and sorting may be done before or after some versions are left out
(`inVersionOrder_filter`).
-/

namespace EventSchema

/-! ### Sorting by classes -/

section Order

variable {α β : Type} [DecidableEq β]

theorem mem_iff_of_filter_eq {f : α → β} {l₁ l₂ : List α} {a : α}
    (h : ∀ c, (l₁.filter fun a ↦ f a = c) = l₂.filter fun a ↦ f a = c) : a ∈ l₁ ↔ a ∈ l₂ := by
  have hfilter : a ∈ l₁.filter (fun b ↦ f b = f a) ↔ a ∈ l₂.filter (fun b ↦ f b = f a) := by rw [h]
  simpa only [List.mem_filter, decide_true, and_true] using hfilter

/-- Sorted lists are equal if they have the same elements of each class, in the same order. Elements
that are as good as each other must be of one class. -/
theorem eq_of_pairwise_of_filter_eq {R : α → α → Prop} {f : α → β} {l₁ l₂ : List α}
    (hclass : ∀ a ∈ l₁, ∀ b ∈ l₁, R a b → R b a → f a = f b)
    (h₁ : l₁.Pairwise R) (h₂ : l₂.Pairwise R)
    (h : ∀ c, (l₁.filter fun a ↦ f a = c) = l₂.filter fun a ↦ f a = c) : l₁ = l₂ := by
  induction l₁ generalizing l₂ with
  | nil =>
    exact (List.eq_nil_iff_forall_not_mem.2 fun a ha ↦ nomatch (mem_iff_of_filter_eq h).2 ha).symm
  | cons a t₁ ih =>
    cases l₂ with
    | nil => exact nomatch (mem_iff_of_filter_eq h).1 (List.mem_cons_self (a := a))
    | cons b t₂ =>
      -- each head is in the other list, so neither is better than the other
      have hab : f a = f b := by
        rcases List.mem_cons.1 ((mem_iff_of_filter_eq h).1 (List.mem_cons_self (a := a)))
          with rfl | ha
        · rfl
        rcases List.mem_cons.1 ((mem_iff_of_filter_eq h).2 (List.mem_cons_self (a := b)))
          with rfl | hb
        · rfl
        exact hclass a List.mem_cons_self b (List.mem_cons_of_mem a hb)
          (List.rel_of_pairwise_cons h₁ hb) (List.rel_of_pairwise_cons h₂ ha)
      have hhead := h (f a)
      rw [List.filter_cons, List.filter_cons, if_pos (decide_eq_true rfl),
        if_pos (decide_eq_true hab.symm)] at hhead
      obtain rfl := (List.cons.inj hhead).1
      have htail : ∀ c, (t₁.filter fun x ↦ f x = c) = t₂.filter fun x ↦ f x = c := fun c ↦ by
        have hc := h c
        rw [List.filter_cons, List.filter_cons] at hc
        split at hc
        · exact (List.cons.inj hc).2
        · exact hc
      exact congrArg (a :: ·) (ih (fun x hx y hy ↦ hclass x (List.mem_cons_of_mem a hx) y
        (List.mem_cons_of_mem a hy)) h₁.of_cons h₂.of_cons htail)

/-- Sorting keeps the order of the elements of a class. -/
theorem filter_mergeSort (key : β → Nat) (f : α → β) (l : List α) (c : β) :
    ((l.mergeSort fun a b ↦ key (f a) ≤ key (f b)).filter fun a ↦ f a = c) =
      l.filter fun a ↦ f a = c := by
  have hsorted :
      (l.filter fun a ↦ f a = c).Pairwise fun a b ↦ decide (key (f a) ≤ key (f b)) = true :=
    List.pairwise_of_forall_mem_list fun a ha b hb ↦ by
      rw [of_decide_eq_true (List.mem_filter.1 ha).2, of_decide_eq_true (List.mem_filter.1 hb).2]
      exact decide_eq_true (Nat.le_refl _)
  have hsub := (List.sublist_mergeSort (fun a b c hab hbc ↦ decide_eq_true
    ((of_decide_eq_true hab).trans (of_decide_eq_true hbc)))
    (fun a b ↦ by simpa using Nat.le_total _ _) hsorted List.filter_sublist).filter fun a ↦ f a = c
  rw [List.filter_filter] at hsub
  simp only [Bool.and_self] at hsub
  exact (hsub.eq_of_length ((List.mergeSort_perm l _).filter _).length_eq.symm).symm

end Order

/-- Versions that are left stand in the order that they stood in. -/
theorem idxOf_le_of_filter {keep : String → Bool} {versions : List String} {u v : String}
    (hu : keep u = true) (hv : keep v = true) :
    (versions.filter keep).idxOf u ≤ (versions.filter keep).idxOf v →
      versions.idxOf u ≤ versions.idxOf v := by
  induction versions with
  | nil => exact id
  | cons first rest ih =>
    rw [List.filter_cons, List.idxOf_cons, List.idxOf_cons]
    split
    case isTrue hfirst =>
      rw [List.idxOf_cons, List.idxOf_cons]
      grind
    case isFalse hfirst =>
      have hne : ∀ {x : String}, keep x = true → (first == x) = false := fun hx ↦
        beq_false_of_ne fun heq ↦ hfirst (heq ▸ hx)
      rw [hne hu, hne hv]
      exact fun h ↦ Nat.succ_le_succ (ih h)

theorem inVersionOrder_filter {keep : String → Bool} {versions : List String}
    {failures : List VersionFailure} (h : ∀ f ∈ failures, f.version ∈ versions) :
    inVersionOrder (versions.filter keep) (failures.filter fun f ↦ keep f.version) =
      (inVersionOrder versions failures).filter fun f ↦ keep f.version := by
  have hsorted : ∀ (vs : List String) (fs : List VersionFailure),
      (inVersionOrder vs fs).Pairwise fun f g ↦ vs.idxOf f.version ≤ vs.idxOf g.version :=
    fun vs fs ↦
    (List.pairwise_mergeSort (fun a b c hab hbc ↦ decide_eq_true
      ((of_decide_eq_true hab).trans (of_decide_eq_true hbc)))
      (fun a b ↦ by simpa using Nat.le_total _ _) fs).imp of_decide_eq_true
  have hkept : ∀ f ∈ inVersionOrder (versions.filter keep) (failures.filter fun f ↦ keep f.version),
      f.version ∈ versions ∧ keep f.version = true := fun f hf ↦ by
    obtain ⟨hmem, hkeep⟩ := List.mem_filter.1 (List.mem_mergeSort.1 hf)
    exact ⟨h f hmem, hkeep⟩
  refine eq_of_pairwise_of_filter_eq (f := VersionFailure.version)
    (R := fun f g ↦ versions.idxOf f.version ≤ versions.idxOf g.version)
    (fun f hf g hg hfg hgf ↦ (List.idxOf_inj (hkept f hf).1).1 (Nat.le_antisymm hfg hgf))
    ((hsorted _ _).imp_of_mem fun hf hg ↦ idxOf_le_of_filter (hkept _ hf).2 (hkept _ hg).2)
    ((hsorted versions failures).filter _) fun v ↦ ?_
  calc (inVersionOrder (versions.filter keep) (failures.filter fun f ↦ keep f.version)).filter
        (fun f ↦ f.version = v)
      = (failures.filter fun f ↦ keep f.version).filter fun f ↦ f.version = v :=
        filter_mergeSort (versions.filter keep).idxOf VersionFailure.version _ v
    _ = (failures.filter fun f ↦ f.version = v).filter fun f ↦ keep f.version :=
        List.filter_comm _ _ _
    _ = ((inVersionOrder versions failures).filter fun f ↦ f.version = v).filter
          fun f ↦ keep f.version :=
        congrArg _ (filter_mergeSort versions.idxOf VersionFailure.version failures v).symm
    _ = ((inVersionOrder versions failures).filter fun f ↦ keep f.version).filter
          fun f ↦ f.version = v := List.filter_comm _ _ _

end EventSchema
