import Mathlib.Data.List.Nodup
import Mathlib.Data.String.Basic
import EventSchema.Package.Queue
import EventSchema.Proofs.Tables

/-!
# The queue places every name once

Placing names by a queue comes to the same as looking, again and again, for the first of the
remaining names whose needs are all placed (`placeInOrder`): at each moment the queue holds exactly
these names, each of them once (`Queue.Follows`). So no name is lost and none enters twice, and as
many steps as there are names are enough (`Queue.order_start`).
-/

namespace EventSchema.Package

/-- Place the first name whose needs are placed, again and again, until none can be placed. -/
def placeInOrder (needs : String → List String) :
    (fuel : Nat) → (placed remaining : List String) → List String
  | 0, _, _ => []
  | fuel + 1, placed, remaining =>
    match remaining.find? fun name => (needs name).all placed.contains with
    | some name => name :: placeInOrder needs fuel (name :: placed) (remaining.erase name)
    | none => []

namespace Queue

variable {needs : String → List String} {names placed remaining ms : List String} {n m : String}
  {q r : Queue}

/-! ### Entering the queue -/

/-- Pushing a name adds it. -/
theorem push_perm (n : String) (ms : List String) : (push n ms).Perm (n :: ms) := by
  induction ms with
  | nil => exact .refl _
  | cons m ms ih =>
    rw [push]
    split
    · exact .refl _
    · exact (ih.cons m).trans (.swap n m ms)

/-- A queue stays in order when a name is pushed. -/
theorem pairwise_push (h : ms.Pairwise (· ≤ ·)) : (push n ms).Pairwise (· ≤ ·) := by
  induction ms with
  | nil => exact List.pairwise_singleton _ _
  | cons m ms ih =>
    obtain ⟨hm, hms⟩ := List.pairwise_cons.1 h
    rw [push]
    split
    · next hle =>
      exact List.pairwise_cons.2
        ⟨List.forall_mem_cons.2 ⟨hle, fun k hk ↦ String.le_trans hle (hm k hk)⟩, h⟩
    · next hgt =>
      refine List.pairwise_cons.2 ⟨fun k hk ↦ ?_, ih hms⟩
      rcases List.mem_cons.1 ((push_perm n ms).subset hk) with rfl | hk
      · exact (String.le_total k m).resolve_left hgt
      · exact hm k hk

/-- Ascending names enter the queue in their order. -/
theorem foldr_push (h : ms.Pairwise (· ≤ ·)) : ms.foldr push [] = ms := by
  induction ms with
  | nil => rfl
  | cons n ms ih =>
    obtain ⟨hn, hms⟩ := List.pairwise_cons.1 h
    rw [List.foldr_cons, ih hms]
    cases ms with
    | nil => rfl
    | cons m ms => rw [push, if_pos (hn m List.mem_cons_self)]

/-! ### Releasing names -/

theorem namesOf_put {sets : Table NameSet} {s : NameSet} :
    namesOf (sets.put m s) n = if m = n then s else namesOf sets n := by
  rw [namesOf, Table.get?_put]
  split <;> rfl

/-- What a name is left to wait for when another one is placed. -/
def left (waits : Table NameSet) (placed n : String) : NameSet := (namesOf waits n).erase placed

/-- How a queue comes from another one when names are released: they wait for one name less, and
those enter the queue that wait for nothing else. -/
structure Released (placed : String) (ns : List String) (q r : Queue) : Prop where
  dependents : r.dependents = q.dependents
  waits : ∀ n, namesOf r.waits n = if n ∈ ns then left q.waits placed n else namesOf q.waits n
  perm : r.ready.Perm ((ns.filter fun n ↦ (left q.waits placed n).isEmpty) ++ q.ready)
  pairwise : q.ready.Pairwise (· ≤ ·) → r.ready.Pairwise (· ≤ ·)

theorem Released.cons {k : String} {ns : List String} (hn : n ∉ ns)
    (h : Released k ns (q.release k n) r) : Released k (n :: ns) q r := by
  have hother {m : String} (hm : m ∈ ns) : left (q.release k n).waits k m = left q.waits k m := by
    have hne : n ≠ m := fun heq ↦ hn (heq ▸ hm)
    rw [left, release, namesOf_put, if_neg hne, left]
  refine ⟨h.dependents, fun m ↦ ?_, h.perm.trans ?_, fun hsorted ↦ h.pairwise ?_⟩
  · rw [h.waits]
    by_cases hm : m ∈ ns
    · rw [if_pos hm, if_pos (List.mem_cons_of_mem n hm), hother hm]
    · rw [if_neg hm, release, namesOf_put]
      by_cases heq : n = m
      · rw [if_pos heq, if_pos (heq ▸ List.mem_cons_self), heq, left]
      · rw [if_neg heq, if_neg fun hmem ↦ (List.mem_cons.1 hmem).elim (fun h ↦ heq h.symm) hm]
  · rw [List.filter_congr fun m hm ↦ congrArg NameSet.isEmpty (hother hm), List.filter_cons]
    change (_ ++ if (left q.waits k n).isEmpty then push n q.ready else q.ready).Perm _
    split
    · exact (List.Perm.append_left _ (push_perm n q.ready)).trans List.perm_middle
    · exact .refl _
  · change (if (left q.waits k n).isEmpty then push n q.ready else q.ready).Pairwise (· ≤ ·)
    split
    · exact pairwise_push hsorted
    · exact hsorted

/-- Releasing names one by one releases them all. -/
theorem released_foldl {ns : List String} (hns : ns.Nodup) (q : Queue) (k : String) :
    Released k ns q (ns.foldl (release k) q) := by
  induction ns generalizing q with
  | nil => exact ⟨rfl, fun _ ↦ rfl, .refl _, id⟩
  | cons n ns ih =>
    obtain ⟨hn, hns⟩ := List.nodup_cons.1 hns
    exact (ih hns (q.release k n)).cons hn

/-! ### What the queue holds -/

/-- How far names are placed: those that remain are ascending, and what was placed needs only what
was placed. -/
structure Partition (needs : String → List String)
    (names placed remaining : List String) : Prop where
  ascending : remaining.Pairwise (· < ·)
  split : ∀ n, n ∈ names ↔ n ∈ placed ∨ n ∈ remaining
  apart : ∀ n ∈ remaining, n ∉ placed
  settled : ∀ n ∈ placed, ∀ m ∈ needs n, m ∈ placed

/-- The remaining names whose needs are all placed. -/
def readyNames (needs : String → List String) (placed remaining : List String) : List String :=
  remaining.filter fun n ↦ (needs n).all placed.contains

/-- The queue keeps up with the names that are placed: each remaining name waits for what it needs
and has no place, and those that wait for nothing are in the queue, each once. -/
structure Follows (needs : String → List String)
    (names placed remaining : List String) (q : Queue) :
    Prop extends Partition needs names placed remaining where
  dependents : ∀ n m, n ∈ namesOf q.dependents m ↔ n ∈ names ∧ m ∈ needs n
  waits : ∀ n ∈ remaining, ∀ m, m ∈ namesOf q.waits n ↔ m ∈ needs n ∧ m ∉ placed
  ready : q.ready = readyNames needs placed remaining

/-- Ready are the remaining names whose needs are all placed. -/
theorem mem_readyNames : n ∈ readyNames needs placed remaining ↔
    n ∈ remaining ∧ ∀ m ∈ needs n, m ∈ placed := by
  rw [readyNames, List.mem_filter, List.all_eq_true]
  exact and_congr_right fun _ ↦ forall₂_congr fun m _ ↦ List.contains_iff_mem

/-- Without a name the others remain. -/
theorem Partition.mem_erase (h : Partition needs names placed remaining) :
    m ∈ remaining.erase n ↔ m ∈ remaining ∧ m ≠ n := by
  have hnodup : remaining.Nodup := h.ascending.imp ne_of_lt
  rw [hnodup.mem_erase_iff, and_comm]

/-- A name that needs one of the remaining names has no place yet. -/
theorem Partition.mem_remaining (h : Partition needs names placed remaining) (hn : n ∈ remaining)
    (hm : m ∈ names) (hneeds : n ∈ needs m) : m ∈ remaining :=
  ((h.split m).1 hm).resolve_left fun hplaced ↦ h.apart n hn (h.settled m hplaced n hneeds)

/-- One of the remaining names whose needs are placed can be placed. -/
theorem Partition.place (h : Partition needs names placed remaining)
    (hn : n ∈ readyNames needs placed remaining) :
    Partition needs names (n :: placed) (remaining.erase n) := by
  obtain ⟨hn, hneeds⟩ := mem_readyNames.1 hn
  refine ⟨h.ascending.erase n, fun m ↦ ?_, fun m hm ↦ ?_, ?_⟩
  · rw [h.split m, List.mem_cons, h.mem_erase]
    by_cases heq : m = n
    · simp [heq, hn]
    · simp [heq]
  · obtain ⟨hm, hne⟩ := h.mem_erase.1 hm
    exact fun hmem ↦ (List.mem_cons.1 hmem).elim hne (h.apart m hm)
  · refine List.forall_mem_cons.2 ⟨fun m hm ↦ ?_, fun k hk m hm ↦ ?_⟩
    · exact List.mem_cons_of_mem n (hneeds m hm)
    · exact List.mem_cons_of_mem n (h.settled k hk m hm)

/-- When a name is placed, the names whose needs are all placed are those that were left in the
queue, and those that waited for this name alone. -/
theorem Partition.mem_readyNames_place (h : Partition needs names placed remaining)
    {rest : List String} (hready : n :: rest = readyNames needs placed remaining) :
    m ∈ readyNames needs (n :: placed) (remaining.erase n) ↔
      (m ∈ names ∧ n ∈ needs m ∧ ∀ k ∈ needs m, k ∈ n :: placed) ∨ m ∈ rest := by
  have hmem {k : String} : k ∈ n :: rest ↔ k ∈ remaining ∧ ∀ m ∈ needs k, m ∈ placed := by
    rw [hready, mem_readyNames]
  obtain ⟨hn, hneeds⟩ := hmem.1 List.mem_cons_self
  have hrest : (n :: rest).Pairwise (· < ·) := by
    rw [hready]
    exact h.ascending.filter _
  rw [mem_readyNames, h.mem_erase]
  constructor
  · rintro ⟨⟨hm, hne⟩, hplaced⟩
    by_cases hmn : n ∈ needs m
    · exact .inl ⟨(h.split m).2 (.inr hm), hmn, hplaced⟩
    · refine .inr ((List.mem_cons.1 (hmem.2 ⟨hm, fun k hk ↦ ?_⟩)).resolve_left hne)
      exact (List.mem_cons.1 (hplaced k hk)).resolve_left fun heq ↦ hmn (heq ▸ hk)
  · rintro (⟨hm, hmn, hplaced⟩ | hm)
    · refine ⟨⟨h.mem_remaining hn hm hmn, ?_⟩, hplaced⟩
      rintro rfl
      exact h.apart m hn (hneeds m hmn)
    · obtain ⟨hremaining, hplaced⟩ := hmem.1 (List.mem_cons_of_mem n hm)
      exact ⟨⟨hremaining, (ne_of_lt (List.rel_of_pairwise_cons hrest hm)).symm⟩,
        fun k hk ↦ List.mem_cons_of_mem n (hplaced k hk)⟩

/-- What enters the queue when a name is placed are the names that waited for it alone. -/
theorem Follows.mem_entering (h : Follows needs names placed remaining q) (hn : n ∈ remaining) :
    m ∈ (namesOf q.dependents n).toList.filter (fun m ↦ (left q.waits n m).isEmpty) ↔
      m ∈ names ∧ n ∈ needs m ∧ ∀ k ∈ needs m, k ∈ n :: placed := by
  have hdependent : m ∈ (namesOf q.dependents n).toList ↔ m ∈ names ∧ n ∈ needs m :=
    h.dependents m n
  rw [List.mem_filter, hdependent, and_assoc]
  refine and_congr_right fun hm ↦ and_congr_right fun hmn ↦ ?_
  rw [NameSet.isEmpty_iff]
  refine forall_congr' fun k ↦ ?_
  rw [left, NameSet.mem_erase, h.waits m (h.mem_remaining hn hm hmn), List.mem_cons]
  tauto

/-- The queue keeps up when its first name is placed. -/
theorem Follows.place {rest : List String} (h : Follows needs names placed remaining q)
    (hready : q.ready = n :: rest) :
    Follows needs names (n :: placed) (remaining.erase n) (place { q with ready := rest } n) := by
  have hfirst : n :: rest = readyNames needs placed remaining := hready.symm.trans h.ready
  have hn : n ∈ readyNames needs placed remaining := hfirst ▸ List.mem_cons_self
  have hsorted : (n :: rest).Pairwise (· < ·) := by
    rw [hfirst]
    exact h.ascending.filter _
  have hrest : rest.Pairwise (· < ·) := (List.pairwise_cons.1 hsorted).2
  have hreleased : Released n (namesOf q.dependents n).toList { q with ready := rest }
      (Queue.place { q with ready := rest } n) :=
    released_foldl ((namesOf q.dependents n).ascending.imp ne_of_lt) _ n
  refine ⟨h.toPartition.place hn, ?_, fun m hm k ↦ ?_, ?_⟩
  · rw [hreleased.dependents]
    exact h.dependents
  · obtain ⟨hremaining, -⟩ := h.mem_erase.1 hm
    rw [hreleased.waits, List.mem_cons, not_or]
    split
    · rw [left, NameSet.mem_erase, h.waits m hremaining, and_assoc, and_comm (a := k ∉ placed)]
    · next hother =>
      rw [h.waits m hremaining]
      refine and_congr_right fun hk ↦ (and_iff_right ?_).symm
      rintro rfl
      exact hother ((h.dependents _ _).2 ⟨(h.split m).2 (.inr hremaining), hk⟩)
  · have hentering {m : String} := h.mem_entering (m := m) (mem_readyNames.1 hn).1
    have hnodup : ((namesOf q.dependents n).toList.filter (fun m ↦ (left q.waits n m).isEmpty) ++
        rest).Nodup := by
      refine List.nodup_append'.2 ⟨((namesOf q.dependents n).ascending.imp ne_of_lt).filter _,
        hrest.imp ne_of_lt, fun m hm hmrest ↦ ?_⟩
      -- what is in the queue needs only what was placed before
      have hqueued : m ∈ readyNames needs placed remaining := hfirst ▸ List.mem_cons_of_mem n hmrest
      exact h.apart n (mem_readyNames.1 hn).1
        ((mem_readyNames.1 hqueued).2 n (hentering.1 hm).2.1)
    refine NameSet.eq_of_ascending ?_ ((h.ascending.erase n).filter _) fun m ↦ ?_
    · exact (hreleased.pairwise (hrest.imp le_of_lt)).imp₂ (fun _ _ ↦ lt_of_le_of_ne)
        (hreleased.perm.nodup_iff.2 hnodup)
    · rw [hreleased.perm.mem_iff, List.mem_append, h.mem_readyNames_place hfirst]
      exact or_congr_left hentering

/-- Placing names by a queue that keeps up is looking for the first name that can be placed, again
and again. -/
theorem Follows.order_eq {steps : Nat} (h : Follows needs names placed remaining q)
    (hsteps : remaining.length ≤ steps) :
    q.order steps = placeInOrder needs remaining.length placed remaining := by
  induction steps generalizing q placed remaining with
  | zero =>
    rw [Nat.le_zero.1 hsteps]
    rfl
  | succ steps ih =>
    cases hready : q.ready with
    | nil =>
      have hnone : remaining.find? (fun n ↦ (needs n).all placed.contains) = none := by
        rw [← List.head?_filter, ← readyNames, ← h.ready, hready, List.head?_nil]
      rw [order, hready]
      cases remaining with
      | nil => rfl
      | cons n rest =>
        rw [List.length_cons, placeInOrder, hnone]
    | cons n rest =>
      have hfirst : remaining.find? (fun n ↦ (needs n).all placed.contains) = some n := by
        rw [← List.head?_filter, ← readyNames, ← h.ready, hready, List.head?_cons]
      have hn : n ∈ remaining := List.mem_of_find?_eq_some hfirst
      have hlength : remaining.length = (remaining.erase n).length + 1 := by
        rw [List.length_erase_of_mem hn, Nat.sub_add_cancel (List.length_pos_of_mem hn)]
      rw [order, hready, hlength, placeInOrder, hfirst]
      exact congrArg (n :: ·) (ih (h.place hready) (by omega))

/-! ### The whole run -/

/-- The dependents of a name are told by the edges. -/
theorem mem_namesOf_foldl_addDependent {es : List (String × String)} {dependents : Table NameSet} :
    n ∈ namesOf (es.foldl addDependent dependents) m ↔ (n, m) ∈ es ∨ n ∈ namesOf dependents m := by
  induction es generalizing dependents with
  | nil => exact ⟨.inr, fun h ↦ h.resolve_left List.not_mem_nil⟩
  | cons e es ih =>
    rw [List.foldl_cons, ih, addDependent, namesOf_put, List.mem_cons]
    by_cases heq : e.2 = m
    · subst heq
      rw [if_pos rfl, NameSet.mem_insert, Prod.ext_iff]
      simp only [and_true]
      tauto
    · rw [if_neg heq, Prod.ext_iff]
      have hne : ¬ (n = e.1 ∧ m = e.2) := fun h ↦ heq h.2.symm
      tauto

theorem namesOf_ofList_map {sets : String → NameSet} (hn : n ∈ names) :
    namesOf (.ofList (names.map fun n ↦ (n, sets n))) n = sets n := by
  rw [namesOf, Table.get?_ofList_map_of_mem hn fun m _ heq ↦ congrArg sets heq]
  rfl

theorem namesOf_ofList_empty (names : List String) (n : String) :
    namesOf (.ofList (names.map fun n ↦ (n, .empty))) n = .empty := by
  rw [namesOf]
  cases hget : (Table.ofList (names.map fun n ↦ (n, NameSet.empty))).get? n with
  | none => rfl
  | some s =>
    obtain ⟨m, -, heq⟩ := List.mem_map.1 (Table.mem_of_get?_ofList hget)
    exact (Prod.mk.inj heq).2.symm

/-- No name is placed at the start. -/
theorem follows_start (hnames : names.Pairwise (· < ·)) :
    Follows needs names [] names (start needs names) := by
  have hpartition : Partition needs names [] names :=
    ⟨hnames, fun _ ↦ (or_iff_right List.not_mem_nil).symm, fun _ _ ↦ List.not_mem_nil,
      fun _ h ↦ absurd h List.not_mem_nil⟩
  refine ⟨hpartition, fun n m ↦ ?_, fun n hn m ↦ ?_, ?_⟩
  · rw [start, mem_namesOf_foldl_addDependent, namesOf_ofList_empty, List.mem_flatMap]
    constructor
    · rintro (⟨k, hk, hmem⟩ | hmem)
      · obtain ⟨l, hl, heq⟩ := List.mem_map.1 hmem
        obtain ⟨rfl, rfl⟩ := Prod.mk.inj heq
        exact ⟨hk, NameSet.mem_ofList.1 hl⟩
      · cases hmem
    · rintro ⟨hn, hm⟩
      exact .inl ⟨n, hn, List.mem_map.2 ⟨m, NameSet.mem_ofList.2 hm, rfl⟩⟩
  · rw [start, namesOf_ofList_map hn, NameSet.mem_ofList, and_iff_left List.not_mem_nil]
  · have hready :
        (names.filter fun n ↦ (NameSet.ofList (needs n)).isEmpty) = readyNames needs [] names :=
      List.filter_congr fun n _ ↦ by
        rw [Bool.eq_iff_iff, NameSet.isEmpty_iff, List.all_eq_true]
        refine forall_congr' fun m ↦ ?_
        rw [NameSet.mem_ofList, List.contains_iff_mem]
        exact ⟨fun h hm ↦ absurd hm h, fun h hm ↦ absurd (h hm) List.not_mem_nil⟩
    rw [start, hready]
    exact foldr_push ((hnames.filter _).imp le_of_lt)

/-- **The queue places every name once.** Placing ascending names by a queue is looking, again and
again, for the first of the remaining names whose needs are all placed, and more steps than names
change nothing. -/
theorem order_start {steps : Nat} (hnames : names.Pairwise (· < ·))
    (hsteps : names.length ≤ steps) :
    (start needs names).order steps = placeInOrder needs names.length [] names :=
  (follows_start hnames).order_eq hsteps

end Queue

end EventSchema.Package
