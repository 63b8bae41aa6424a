/-!
# Entry lists

A finite map from names to values that keeps the order in which its names first came in, as a
plain list of pairs. The operations keep names apart: `put` replaces the value of a name where it
stands and appends a new name at the end, so a list built by `put` alone has every name once
(`nodup_names_put`). Lists with repeated names are read by their first entry.

The two laws that the rest of the library uses are `get?_put` and `names_put`.
-/

namespace EventSchema

universe u v

/-- Pairs of a name and a value, oldest name first. -/
abbrev Entries (α : Type u) := List (String × α)

namespace Entries

variable {α : Type u} {β : Type v}

/-- The names of the entries, in order. -/
def names (es : Entries α) : List String := es.map Prod.fst

/-- The values of the entries, in order. -/
def values (es : Entries α) : List α := es.map Prod.snd

/-- The value of the first entry with the given name. -/
def get? : Entries α → String → Option α
  | [], _ => none
  | (m, a) :: es, n => if m = n then some a else get? es n

/-- Whether some entry has the given name. -/
def has (es : Entries α) (n : String) : Bool := (es.get? n).isSome

/-- Give a name a value: where the name stands if it is there, at the end if it is new. -/
def put : Entries α → String → α → Entries α
  | [], n, a => [(n, a)]
  | (m, b) :: es, n, a => if m = n then (m, a) :: es else (m, b) :: put es n a

/-- Give a name a value unless it has one. -/
def putNew (es : Entries α) (n : String) (a : α) : Entries α :=
  if es.has n then es else es.put n a

/-- Take out every entry with the given name. -/
def erase (es : Entries α) (n : String) : Entries α := es.filter fun e => e.1 ≠ n

/-- Apply a function to every value. -/
def mapValues (f : α → β) (es : Entries α) : Entries β := es.map fun e => (e.1, f e.2)

/-- The entries of a list of pairs, where a repeated name keeps its first place and takes its last
value. -/
def ofList (es : List (String × α)) : Entries α := es.foldl (fun r e => put r e.1 e.2) []

/-! ### Laws of look-up and replacement -/

@[simp] theorem get?_nil (n : String) : get? ([] : Entries α) n = none := rfl

theorem get?_cons (m n : String) (a : α) (es : Entries α) :
    get? ((m, a) :: es) n = if m = n then some a else get? es n := rfl

theorem get?_put (es : Entries α) (m n : String) (a : α) :
    (es.put m a).get? n = if m = n then some a else es.get? n := by
  induction es with
  | nil => rfl
  | cons e es ih =>
    obtain ⟨k, b⟩ := e
    by_cases hk : k = m
    · subst hk
      by_cases hn : k = n <;> simp [put, get?_cons, hn]
    · by_cases hn : k = n
      · subst hn
        simp [put, get?_cons, hk, Ne.symm hk]
      · simp [put, get?_cons, hk, hn, ih]

theorem get?_eq_none_iff {es : Entries α} {n : String} : es.get? n = none ↔ n ∉ es.names := by
  induction es with
  | nil => simp [names]
  | cons e es ih =>
    obtain ⟨k, b⟩ := e
    by_cases hk : k = n
    · simp [get?_cons, names, hk]
    · simp only [get?_cons, hk, if_false, ih, names, List.map_cons, List.mem_cons, not_or]
      exact ⟨fun h => ⟨Ne.symm hk, h⟩, fun h => h.2⟩

theorem has_iff {es : Entries α} {n : String} : es.has n = true ↔ n ∈ es.names := by
  have h : es.get? n = none ↔ n ∉ es.names := get?_eq_none_iff
  unfold has
  cases hg : es.get? n with
  | none => simpa [hg] using h
  | some a => simpa [hg] using h

theorem names_put (es : Entries α) (n : String) (a : α) :
    (es.put n a).names = if n ∈ es.names then es.names else es.names ++ [n] := by
  induction es with
  | nil => simp [put, names]
  | cons e es ih =>
    obtain ⟨k, b⟩ := e
    by_cases hk : k = n
    · subst hk
      simp [put, names]
    · have hk' : ¬ n = k := fun h => hk h.symm
      by_cases hn : n ∈ names es
      · have := ih
        simp only [names] at this hn
        simp [put, names, hk, hk', this, hn]
      · have := ih
        simp only [names] at this hn
        simp [put, names, hk, hk', this, hn]

theorem nodup_names_put {es : Entries α} (h : es.names.Nodup) (n : String) (a : α) :
    (es.put n a).names.Nodup := by
  rw [names_put]
  split
  · exact h
  · next hn =>
    rw [List.nodup_append]
    refine ⟨h, by simp, ?_⟩
    intro x hx y hy
    simp only [List.mem_singleton] at hy
    subst hy
    exact fun he => hn (he ▸ hx)

theorem nodup_names_filter {es : Entries α} (h : es.names.Nodup) (p : String × α → Bool) :
    (names (es.filter p)).Nodup :=
  (List.filter_sublist.map Prod.fst).nodup h

@[simp] theorem names_mapValues (f : α → β) (es : Entries α) :
    (es.mapValues f).names = es.names := by
  simp [names, mapValues, Function.comp_def]

theorem nodup_names_foldl_put (es : List (String × α)) {r : Entries α} (h : r.names.Nodup) :
    (names (es.foldl (fun r e => put r e.1 e.2) r)).Nodup := by
  induction es generalizing r with
  | nil => exact h
  | cons e es ih => exact ih (nodup_names_put h e.1 e.2)

theorem nodup_names_ofList (es : List (String × α)) : (ofList es).names.Nodup :=
  nodup_names_foldl_put es (by simp [names])

theorem get?_of_mem {es : Entries α} (h : es.names.Nodup) {n : String} {a : α} (hm : (n, a) ∈ es) :
    es.get? n = some a := by
  induction es with
  | nil => simp at hm
  | cons e es ih =>
    obtain ⟨k, b⟩ := e
    simp only [names, List.map_cons, List.nodup_cons] at h
    rcases List.mem_cons.1 hm with he | he
    · cases he
      simp [get?_cons]
    · have hk : k ≠ n := fun hkn => h.1 (hkn ▸ List.mem_map.2 ⟨_, he, rfl⟩)
      simp [get?_cons, hk, ih h.2 he]

theorem mem_of_get? {es : Entries α} {n : String} {a : α} (h : es.get? n = some a) :
    (n, a) ∈ es := by
  induction es with
  | nil => simp at h
  | cons e es ih =>
    obtain ⟨k, b⟩ := e
    by_cases hk : k = n
    · simp_all [get?_cons]
    · simp only [get?_cons, hk, if_false] at h
      exact List.mem_cons_of_mem _ (ih h)

end Entries

end EventSchema
