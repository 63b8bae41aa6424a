/-!
# Sets of names

Finite sets of names, held as strictly ascending lists. The representation is canonical: two sets
with the same members are equal (`NameSet.ext_mem`), so laws such as associativity of the union are
laws of membership, and printing a set needs no further sorting.
-/

namespace EventSchema

/-- A finite set of names, ascending and without repetitions. -/
structure NameSet where
  /-- The members, ascending. -/
  toList : List String
  /-- Each member is below the ones after it. -/
  ascending : toList.Pairwise (· < ·)
  deriving DecidableEq

namespace NameSet

/-- Insert a name into an ascending list at its place. -/
def insertAscending (n : String) : List String → List String
  | [] => [n]
  | m :: ms => if n < m then n :: m :: ms else if n = m then m :: ms else m :: insertAscending n ms

theorem mem_insertAscending {n x : String} {ms : List String} :
    x ∈ insertAscending n ms ↔ x = n ∨ x ∈ ms := by
  induction ms with
  | nil => simp [insertAscending]
  | cons m ms ih =>
    unfold insertAscending
    split
    · simp
    · split
      · next h => subst h; simp
      · simp only [List.mem_cons, ih]
        exact or_left_comm

theorem pairwise_insertAscending {n : String} {ms : List String} (h : ms.Pairwise (· < ·)) :
    (insertAscending n ms).Pairwise (· < ·) := by
  induction ms with
  | nil => simp [insertAscending]
  | cons m ms ih =>
    obtain ⟨hm, hms⟩ := List.pairwise_cons.1 h
    unfold insertAscending
    split
    · next hlt =>
      refine List.pairwise_cons.2 ⟨?_, h⟩
      intro x hx
      rcases List.mem_cons.1 hx with rfl | hx
      · exact hlt
      · exact String.lt_trans hlt (hm x hx)
    · next hnlt =>
      split
      · exact h
      · next hne =>
        refine List.pairwise_cons.2 ⟨?_, ih hms⟩
        intro x hx
        rcases mem_insertAscending.1 hx with rfl | hx
        · rcases Decidable.em (m < x) with hlt | hge
          · exact hlt
          · exact absurd (String.le_antisymm (String.not_lt.1 hge) (String.not_lt.1 hnlt)) hne
        · exact hm x hx

/-- The set without members. -/
def empty : NameSet := ⟨[], .nil⟩

instance : Inhabited NameSet := ⟨empty⟩

/-- The set with one more member. -/
def insert (n : String) (s : NameSet) : NameSet :=
  ⟨insertAscending n s.toList, pairwise_insertAscending s.ascending⟩

/-- The set without a name. -/
def erase (n : String) (s : NameSet) : NameSet :=
  ⟨s.toList.filter (· ≠ n), s.ascending.filter _⟩

/-- Whether the set has no members. -/
def isEmpty (s : NameSet) : Bool := s.toList.isEmpty

/-- The set of the members of a list. -/
def ofList (ns : List String) : NameSet := ns.foldr insert empty

/-- The set of the members of either set. -/
def union (s t : NameSet) : NameSet := s.toList.foldr insert t

/-- Whether a name is a member. -/
def has (s : NameSet) (n : String) : Bool := s.toList.contains n

instance : Membership String NameSet := ⟨fun s n => n ∈ s.toList⟩

theorem mem_def {n : String} {s : NameSet} : n ∈ s ↔ n ∈ s.toList := Iff.rfl

theorem has_iff {s : NameSet} {n : String} : s.has n = true ↔ n ∈ s := by
  simp [has, mem_def]

@[simp] theorem mem_insert {n x : String} {s : NameSet} : x ∈ s.insert n ↔ x = n ∨ x ∈ s :=
  mem_insertAscending

@[simp] theorem mem_erase {n x : String} {s : NameSet} : x ∈ s.erase n ↔ x ∈ s ∧ x ≠ n := by
  simp [erase, mem_def]

theorem isEmpty_iff {s : NameSet} : s.isEmpty = true ↔ ∀ x, x ∉ s := by
  rw [isEmpty, List.isEmpty_iff, List.eq_nil_iff_forall_not_mem]
  exact Iff.rfl

theorem mem_foldr_insert {ns : List String} {s : NameSet} {x : String} :
    x ∈ ns.foldr insert s ↔ x ∈ ns ∨ x ∈ s := by
  induction ns with
  | nil => simp
  | cons n ns ih => simp [ih, or_assoc]

@[simp] theorem mem_ofList {ns : List String} {x : String} : x ∈ ofList ns ↔ x ∈ ns := by
  rw [ofList, mem_foldr_insert]
  simp [empty, mem_def]

@[simp] theorem mem_union {s t : NameSet} {x : String} : x ∈ s.union t ↔ x ∈ s ∨ x ∈ t :=
  mem_foldr_insert

/-! ### Canonicity -/

theorem eq_of_ascending {as bs : List String} (ha : as.Pairwise (· < ·)) (hb : bs.Pairwise (· < ·))
    (h : ∀ x, x ∈ as ↔ x ∈ bs) : as = bs := by
  induction as generalizing bs with
  | nil =>
    cases bs with
    | nil => rfl
    | cons b bs => exact absurd ((h b).2 List.mem_cons_self) List.not_mem_nil
  | cons a as ih =>
    cases bs with
    | nil => exact absurd ((h a).1 List.mem_cons_self) List.not_mem_nil
    | cons b bs =>
      obtain ⟨ha₁, ha₂⟩ := List.pairwise_cons.1 ha
      obtain ⟨hb₁, hb₂⟩ := List.pairwise_cons.1 hb
      have hab : a = b := by
        rcases List.mem_cons.1 ((h a).1 List.mem_cons_self) with hab | hab
        · exact hab
        · rcases List.mem_cons.1 ((h b).2 List.mem_cons_self) with hba | hba
          · exact hba.symm
          · exact absurd (String.lt_trans (ha₁ b hba) (hb₁ a hab)) (String.lt_irrefl a)
      subst hab
      rw [ih ha₂ hb₂]
      intro x
      constructor
      · intro hx
        rcases List.mem_cons.1 ((h x).1 (List.mem_cons_of_mem _ hx)) with rfl | hx'
        · exact absurd (ha₁ x hx) (String.lt_irrefl x)
        · exact hx'
      · intro hx
        rcases List.mem_cons.1 ((h x).2 (List.mem_cons_of_mem _ hx)) with rfl | hx'
        · exact absurd (hb₁ x hx) (String.lt_irrefl x)
        · exact hx'

/-- Sets with the same members are equal. -/
theorem ext_mem {s t : NameSet} (h : ∀ x, x ∈ s ↔ x ∈ t) : s = t := by
  cases s
  cases t
  simp only [mem_def] at h
  congr
  exact eq_of_ascending ‹_› ‹_› h

end NameSet

end EventSchema
