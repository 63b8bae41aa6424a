import EventSchema.Digraph.Components
import EventSchema.Entity

/-!
# References between objects

Which objects refer to which, and through which attributes. A reference is the easier to bind late
the less a value depends on it: references through arrays are best, then references that may be left
out; a reference through required single values alone cannot be bound late.
-/

namespace EventSchema

/-- A reference from one object to another, with all the attributes that make it. -/
structure Reference where
  /-- The object that refers. -/
  source : String
  /-- The object that is referred to. -/
  target : String
  /-- The attributes of the source that refer to the target. -/
  attributes : List Attribute
  deriving Inhabited

namespace Reference

/-- The pair of the objects. -/
def pair (r : Reference) : String × String := (r.source, r.target)

/-- How hard it is to bind the reference late: 0 if some attribute is an array, else 1 if some
attribute may be left out, else 2. -/
def rank (r : Reference) : Nat :=
  if r.attributes.any (·.isArray) then 0
  else if r.attributes.any fun a => !a.isRequired then 1
  else 2

/-- Whether the reference can be bound late. -/
def isDeferrable (r : Reference) : Bool := r.rank < 2

/-- Whether a reference is the better one to bind late: by rank, then by source, then by target. -/
def before (r s : Reference) : Bool :=
  r.rank < s.rank ||
    (r.rank == s.rank && (decide (r.source < s.source) ||
      (r.source == s.source && decide (r.target ≤ s.target))))

end Reference

/-- The references of each object: the attributes that make them, by target. -/
structure ReferenceGraph where
  /-- For each object, the attributes that refer to each target. -/
  table : Table (Table (List Attribute))

namespace ReferenceGraph

/-- Put an attribute among those that refer to its target. -/
def addReference (t : Table (List Attribute)) (a : Attribute) : Table (List Attribute) :=
  match a.target? with
  | some target => t.put target ((t.get? target).getD [] ++ [a])
  | none => t

/-- The attributes of an object by target, targets ascending. -/
def referencesOf (e : Entity) : Table (List Attribute) :=
  (e.attributes.values.foldl addReference .empty).sorted

/-- The references between objects, objects ascending. -/
def ofObjects (objects : Table Entity) : ReferenceGraph := ⟨(objects.map referencesOf).sorted⟩

/-- The objects. -/
def nodes (g : ReferenceGraph) : List String := g.table.names

/-- The references of an object, none if the object is not in the graph. -/
def outgoing? (g : ReferenceGraph) (source : String) : Option (List Reference) :=
  (g.table.get? source).map fun t => t.entries.map fun e => ⟨source, e.1, e.2⟩

/-- All references. -/
def references (g : ReferenceGraph) : List Reference :=
  g.table.entries.flatMap fun e => e.2.entries.map fun f => ⟨e.1, f.1, f.2⟩

/-- The objects and the pairs of objects that refer to each other. -/
def digraph (g : ReferenceGraph) : Digraph := ⟨g.nodes, g.references.map Reference.pair⟩

/-- The groups of objects that refer to each other in circles when some references are left out. -/
def cyclesWithout (g : ReferenceGraph) (removed : List (String × String)) : List (List String) :=
  (g.digraph.without removed).cycles

end ReferenceGraph

end EventSchema
