import EventSchema.Table
import Mathlib.Data.List.Basic

/-!
# Look-up in tables

How looking up a name goes through the operations that change a table as a whole. Sorting changes
the order of the entries alone, so no look-up notices it (`get?_sorted`).
-/

namespace EventSchema

universe u v

/-- Putting a value adds its name. -/
theorem Entries.mem_names_put {α : Type u} {es : Entries α} {a : α} {m n : String} :
    n ∈ (es.put m a).names ↔ n ∈ es.names ∨ n = m := by
  rw [names_put]
  split
  · next h => exact ⟨.inl, fun hn ↦ hn.elim id fun hnm ↦ hnm ▸ h⟩
  · exact List.mem_append.trans (or_congr_right List.mem_singleton)

/-- The first of two lists that has a name answers for it. -/
theorem Entries.get?_append {α : Type u} (es fs : Entries α) (n : String) :
    Entries.get? (es ++ fs) n = (es.get? n).or (fs.get? n) := by
  induction es with
  | nil => rfl
  | cons e es ih =>
    rw [List.cons_append, get?_cons, get?_cons, ih]
    split <;> rfl

/-- The value of a name is that of the first element with this key. -/
theorem Entries.get?_map {α : Type u} {β : Type v} (key : α → String) (value : α → β)
    (as : List α) (n : String) :
    Entries.get? (as.map fun a ↦ (key a, value a)) n =
      (as.find? fun a ↦ decide (key a = n)).map value := by
  induction as with
  | nil => rfl
  | cons a as ih =>
    rw [List.map_cons, get?_cons, List.find?_cons, ih]
    by_cases ha : key a = n
    · rw [if_pos ha, decide_eq_true ha, Option.map_some]
    · rw [if_neg ha, decide_eq_false ha]

/-- Putting a value where it stands changes nothing. -/
theorem Entries.put_self {α : Type u} {es : Entries α} {a : α} {n : String}
    (h : es.get? n = some a) :
    es.put n a = es := by
  induction es with
  | nil => cases h
  | cons e es ih =>
    obtain ⟨m, b⟩ := e
    rw [get?_cons] at h
    rw [put]
    split at h
    · next hm =>
      cases h
      rw [if_pos hm]
    · next hm => rw [if_neg hm, ih h]

namespace Table

variable {α : Type u} {β : Type v} {t u : Table α} {n : String} {a : α}

/-- A name is in a table if it has a value there. -/
theorem mem_names_iff : n ∈ t.names ↔ ∃ a, t.get? n = some a := by
  rw [← Option.ne_none_iff_exists']
  exact (not_iff_comm.1 Entries.get?_eq_none_iff.symm).symm

/-- A value is in a table if it has a name there. -/
theorem mem_values_iff : a ∈ t.values ↔ ∃ n, t.get? n = some a := by
  simp only [values, Entries.values, List.mem_map, get?_eq_some_iff, Prod.exists, exists_eq_right]

/-- Two tables are looked up alike if they have the same entries. -/
theorem get?_eq_of_mem_iff (h : ∀ e, e ∈ t.entries ↔ e ∈ u.entries) (n : String) :
    t.get? n = u.get? n := by
  refine Option.ext fun a ↦ ?_
  rw [get?_eq_some_iff, get?_eq_some_iff, h]

/-- A table is told by its names in their order and by what each of them leads to. -/
theorem eq_of_names (hnames : t.names = u.names) (h : ∀ n, t.get? n = u.get? n) : t = u := by
  have hentries (t : Table α) : t.entries = t.names.filterMap fun n ↦ (t.get? n).map (n, ·) := by
    rw [names, Entries.names, List.filterMap_map]
    refine (List.filterMap_some.symm.trans (List.filterMap_congr fun e he ↦ ?_))
    rw [Function.comp, get?_eq_some_iff.2 he]
    rfl
  refine Table.ext ?_
  rw [hentries t, hentries u, hnames]
  exact List.filterMap_congr fun n _ ↦ by rw [h]

@[simp] theorem get?_sorted (t : Table α) (n : String) : t.sorted.get? n = t.get? n :=
  get?_eq_of_mem_iff (fun _ ↦ (List.mergeSort_perm t.entries _).mem_iff) n

/-- Sorting puts the names in ascending order. -/
theorem pairwise_sorted (t : Table α) : t.sorted.entries.Pairwise fun a b ↦ a.1 ≤ b.1 := by
  have htrans (a b c : String × α) (hab : decide (a.1 ≤ b.1) = true)
      (hbc : decide (b.1 ≤ c.1) = true) : decide (a.1 ≤ c.1) = true := by
    rw [decide_eq_true_iff] at hab hbc ⊢
    exact String.le_trans hab hbc
  have htotal (a b : String × α) : (decide (a.1 ≤ b.1) || decide (b.1 ≤ a.1)) = true := by
    rw [Bool.or_eq_true, decide_eq_true_iff, decide_eq_true_iff]
    exact String.le_total a.1 b.1
  refine (List.pairwise_mergeSort htrans htotal t.entries).imp fun h ↦ ?_
  rwa [decide_eq_true_iff] at h

/-- What is in order already is left as it is. -/
theorem sorted_eq_self (h : t.entries.Pairwise fun a b ↦ a.1 ≤ b.1) : t.sorted = t :=
  Table.ext (List.mergeSort_of_pairwise (h.imp decide_eq_true))

@[simp] theorem sorted_empty : (empty : Table α).sorted = empty := sorted_eq_self .nil

@[simp] theorem get?_map (t : Table α) (f : α → β) (n : String) :
    (t.map f).get? n = (t.get? n).map f := by
  refine Option.ext fun b ↦ ?_
  rw [get?_eq_some_iff, Option.map_eq_some_iff]
  simp only [map, Entries.mapValues, List.mem_map, Prod.mk.injEq, Prod.exists, get?_eq_some_iff]
  constructor
  · rintro ⟨m, a, hm, rfl, rfl⟩
    exact ⟨a, hm, rfl⟩
  · rintro ⟨a, ha, rfl⟩
    exact ⟨n, a, ha, rfl, rfl⟩

theorem mem_names_put {m : String} : n ∈ (t.put m a).names ↔ n ∈ t.names ∨ n = m :=
  Entries.mem_names_put

/-- A value is put where none stands. -/
theorem get?_putNew (t : Table α) (m n : String) (a : α) :
    (t.putNew m a).get? n = (t.get? n).or (if m = n then some a else none) := by
  rw [putNew]
  split
  · next hm =>
    obtain ⟨b, hb⟩ := mem_names_iff.1 (has_iff.1 hm)
    split
    · next hmn => rw [← hmn, hb, Option.some_or]
    · rw [Option.or_none]
  · next hm =>
    rw [get?_put]
    split
    · next hmn =>
      have hnone : t.get? n = none := Option.eq_none_iff_forall_ne_some.2 fun b hb ↦
        hm (has_iff.2 (mem_names_iff.2 ⟨b, hmn ▸ hb⟩))
      rw [hnone, Option.none_or]
    · rw [Option.or_none]

/-- What is left of a table has the values that are kept. -/
theorem get?_filter_eq_some_iff {p : String × α → Bool} :
    (t.filter p).get? n = some a ↔ t.get? n = some a ∧ p (n, a) = true := by
  rw [get?_eq_some_iff, get?_eq_some_iff, filter, List.mem_filter]

/-- Of several values that are put for one name the last one stays. -/
theorem get?_foldl_put (es : List (String × α)) (r : Entries α) (n : String) :
    (es.foldl (fun r e ↦ r.put e.1 e.2) r).get? n = (Entries.get? es.reverse n).or (r.get? n) := by
  induction es generalizing r with
  | nil => rfl
  | cons e es ih =>
    rw [List.foldl_cons, ih, Entries.get?_put, List.reverse_cons, Entries.get?_append,
      Option.or_assoc]
    congr 1
    rw [Entries.get?_cons, Entries.get?_nil]
    split <;> rfl

/-- Values with names of their own are put one behind the other. -/
theorem names_foldl_put (es : List (String × α)) (r : Entries α)
    (h : (Entries.names (r ++ es)).Nodup) :
    (es.foldl (fun r e ↦ r.put e.1 e.2) r).names = Entries.names (r ++ es) := by
  induction es generalizing r with
  | nil => rw [List.foldl_nil, List.append_nil]
  | cons e es ih =>
    have hnew : e.1 ∉ r.names := fun hmem ↦ by
      rw [Entries.names, List.map_append, List.map_cons] at h
      exact (List.nodup_append.1 h).2.2 _ hmem _ List.mem_cons_self rfl
    have hput : (r.put e.1 e.2).names ++ Entries.names es = Entries.names (r ++ e :: es) := by
      rw [Entries.names_put, if_neg hnew]
      simp [Entries.names]
    rw [List.foldl_cons, ih _ (by rw [Entries.names, List.map_append]; exact hput ▸ h), ← hput]
    exact List.map_append

/-- Pairs with different names keep their places. -/
theorem names_ofList {es : List (String × α)} (h : (Entries.names es).Nodup) :
    (ofList es).names = Entries.names es :=
  names_foldl_put es [] h

/-- Of pairs with one name the last one counts. -/
theorem get?_ofList_eq (es : List (String × α)) (n : String) :
    (ofList es).get? n = Entries.get? es.reverse n :=
  (get?_foldl_put es [] n).trans (Option.or_none ..)

/-- The names of a table of pairs are those of the pairs. -/
theorem mem_names_ofList {es : List (String × α)} : n ∈ (ofList es).names ↔
    n ∈ Entries.names es := by
  rw [mem_names_iff, ← Option.ne_none_iff_exists', get?_ofList_eq, ne_eq,
    Entries.get?_eq_none_iff, not_not, Entries.names, List.map_reverse, List.mem_reverse,
    Entries.names]

/-- A table of pairs has no other entries. -/
theorem mem_of_get?_ofList {es : List (String × α)} (h : (ofList es).get? n = some a) :
    (n, a) ∈ es := by
  rw [get?_ofList_eq] at h
  exact List.mem_reverse.1 (Entries.mem_of_get? h)

/-- A table of pairs has the value of a name, if the pairs hold one value alone under it. -/
theorem get?_ofList {es : List (String × α)} (ha : (n, a) ∈ es)
    (hunique : ∀ b, (n, b) ∈ es → b = a) :
    (ofList es).get? n = some a := by
  have hname : n ∈ Entries.names es.reverse := List.mem_map.2 ⟨(n, a), List.mem_reverse.2 ha, rfl⟩
  obtain ⟨b, hb⟩ := Option.ne_none_iff_exists'.1 (mt Entries.get?_eq_none_iff.1 (not_not.2 hname))
  rw [← hunique b (mem_of_get?_ofList ((get?_ofList_eq es n).trans hb)), get?_ofList_eq, hb]

/-- Of values that are put under their keys the last one counts. -/
theorem get?_ofList_map {key : α → String} {value : α → β} {as : List α} {b : β} :
    (ofList (as.map fun a ↦ (key a, value a))).get? n = some b ↔
      ∃ before a after, as = before ++ a :: after ∧ key a = n ∧ value a = b ∧
      ∀ c ∈ after, key c ≠ n := by
  rw [get?_ofList_eq, ← List.map_reverse, Entries.get?_map, Option.map_eq_some_iff]
  simp only [List.find?_eq_some_iff_append, decide_eq_true_eq, Bool.not_eq_true',
    decide_eq_false_iff_not]
  constructor
  · rintro ⟨a, ⟨ha, after, before, has, hafter⟩, hb⟩
    refine ⟨before.reverse, a, after.reverse, ?_, ha, hb,
      fun c hc ↦ hafter c (List.mem_reverse.1 hc)⟩
    rw [← List.reverse_reverse as, has, List.reverse_append, List.reverse_cons, List.append_assoc,
      List.singleton_append]
  · rintro ⟨before, a, after, rfl, ha, hb, hafter⟩
    refine ⟨a,
      ⟨ha, after.reverse, before.reverse, ?_, fun c hc ↦ hafter c (List.mem_reverse.1 hc)⟩, hb⟩
    rw [List.reverse_append, List.reverse_cons, List.append_assoc, List.singleton_append]

/-- A value that was put under its key counts, or another one with the same key. -/
theorem exists_get?_ofList_map {key : α → String} {value : α → β} {as : List α} (ha : a ∈ as) :
    ∃ b, (ofList (as.map fun a ↦ (key a, value a))).get? (key a) = some b := by
  rw [get?_ofList_eq, ← Option.ne_none_iff_exists', ne_eq, Entries.get?_eq_none_iff, not_not]
  exact List.mem_map.2 ⟨(key a, value a), List.mem_reverse.2 (List.mem_map_of_mem ha), rfl⟩

/-- A value that was put under its key is found, if all that were put there are the same. -/
theorem get?_ofList_map_of_mem {key : α → String} {value : α → β} {as : List α} (ha : a ∈ as)
    (hsame : ∀ b ∈ as, key b = key a → value b = value a) :
    (ofList (as.map fun a ↦ (key a, value a))).get? (key a) = some (value a) := by
  obtain ⟨b, hb⟩ : ∃ b, (ofList (as.map fun a ↦ (key a, value a))).get? (key a) = some b :=
    exists_get?_ofList_map ha
  obtain ⟨before, c, after, rfl, hkey, rfl, -⟩ := get?_ofList_map.1 hb
  rw [hb, hsame c (List.mem_append_right _ List.mem_cons_self) hkey]

/-! ### What holds of all values -/

/-- All values of a table have a property. -/
def All (P : α → Prop) (t : Table α) : Prop := ∀ n a, t.get? n = some a → P a

variable {P : α → Prop}

/-- What all values of a table have, each of them has. -/
theorem all_iff_values : t.All P ↔ ∀ a ∈ t.values, P a := by
  simp only [mem_values_iff]
  exact ⟨fun h a ⟨n, hn⟩ ↦ h n a hn, fun h n a hn ↦ h a ⟨n, hn⟩⟩

theorem all_empty : (empty : Table α).All P := fun _ _ h ↦ by cases h

/-- What all values have may be weakened. -/
theorem All.mono {Q : α → Prop} (h : t.All P) (hPQ : ∀ a, P a → Q a) : t.All Q :=
  fun n a hn ↦ hPQ a (h n a hn)

/-- A property of all values stays when a value with it is put. -/
theorem All.put (h : t.All P) (ha : P a) (n : String) : (t.put n a).All P := by
  intro m b hm
  rw [get?_put] at hm
  split at hm
  · cases hm
    exact ha
  · exact h m b hm

/-- A property of all values stays when a value with it is put where none stands. -/
theorem All.putNew (h : t.All P) (ha : P a) (n : String) : (t.putNew n a).All P := by
  rw [Table.putNew]
  split
  · exact h
  · exact h.put ha n

end Table

end EventSchema
