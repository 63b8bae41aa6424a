import EventSchema.Entries

/-!
# Tables

Entry lists in which every name stands once, with that fact carried by the type. A table is the
finite map of the library wherever insertion order shows in a result: attributes of an entity,
definitions of a catalog, files of a package. Two tables with the same entries are equal, so
equality takes the order into account.
-/

namespace EventSchema

universe u v

/-- A finite map from names to values that keeps the order in which names first came in. -/
@[ext] structure Table (α : Type u) where
  /-- The entries, oldest name first. -/
  entries : Entries α
  /-- Every name stands once. -/
  nodup : entries.names.Nodup

namespace Table

variable {α : Type u} {β : Type v}

/-- The table without entries. -/
def empty : Table α := ⟨[], by simp [Entries.names]⟩

instance : Inhabited (Table α) := ⟨empty⟩

/-- The names, in order. -/
def names (t : Table α) : List String := t.entries.names

/-- The values, in the order of their names. -/
def values (t : Table α) : List α := t.entries.values

/-- The number of entries. -/
def size (t : Table α) : Nat := t.entries.length

/-- The value of a name. -/
def get? (t : Table α) (n : String) : Option α := t.entries.get? n

/-- Whether a name has a value. -/
def has (t : Table α) (n : String) : Bool := t.entries.has n

/-- Give a name a value, where it stands if it is there and at the end if it is new. -/
def put (t : Table α) (n : String) (a : α) : Table α :=
  ⟨t.entries.put n a, Entries.nodup_names_put t.nodup n a⟩

/-- Give a name a value unless it has one. -/
def putNew (t : Table α) (n : String) (a : α) : Table α := if t.has n then t else t.put n a

/-- The table of a list of pairs: a repeated name keeps its first place and takes its last value. -/
def ofList (es : List (String × α)) : Table α := ⟨Entries.ofList es, Entries.nodup_names_ofList es⟩

/-- Keep the entries that satisfy a test. -/
def filter (t : Table α) (p : String × α → Bool) : Table α :=
  ⟨t.entries.filter p, Entries.nodup_names_filter t.nodup p⟩

/-- Apply a function to every value. -/
def map (t : Table α) (f : α → β) : Table β :=
  ⟨t.entries.mapValues f, by rw [Entries.names_mapValues]; exact t.nodup⟩

/-- The same entries in ascending order of their names. -/
def sorted (t : Table α) : Table α where
  entries := t.entries.mergeSort fun a b => decide (a.1 ≤ b.1)
  nodup := ((List.mergeSort_perm t.entries _).map Prod.fst).nodup_iff.2 t.nodup

@[simp] theorem get?_empty (n : String) : (empty : Table α).get? n = none := rfl

theorem get?_put (t : Table α) (m n : String) (a : α) :
    (t.put m a).get? n = if m = n then some a else t.get? n := Entries.get?_put ..

theorem names_put (t : Table α) (n : String) (a : α) :
    (t.put n a).names = if n ∈ t.names then t.names else t.names ++ [n] := Entries.names_put ..

theorem has_iff {t : Table α} {n : String} : t.has n = true ↔ n ∈ t.names := Entries.has_iff

theorem get?_eq_some_iff {t : Table α} {n : String} {a : α} :
    t.get? n = some a ↔ (n, a) ∈ t.entries :=
  ⟨Entries.mem_of_get?, Entries.get?_of_mem t.nodup⟩

end Table

end EventSchema
