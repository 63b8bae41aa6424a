import EventSchema.Digraph.Acyclicity
import EventSchema.ReferenceGraph

/-!
# Deferred references

Objects that refer to each other in circles cannot all be defined before they are used. Some
references of each circle are therefore *deferred*: bound only when they are needed.

Within each strongly connected component all references that can be deferred are so at first. Then
they are taken back one after another, those that are hardest to defer first; a reference stays
deferred if taking it back would close a circle of references that are not deferred. What remains is
least: no reference can be taken back, and arrays are deferred before references that may merely be
left out.
-/

namespace EventSchema

/-- The references that are bound late, and the groups of objects that refer to each other in
circles. -/
structure Deferral where
  /-- The pairs of objects whose reference is bound late. -/
  pairs : List (String × String)
  /-- The groups of objects. -/
  components : List (List String)
  deriving Inhabited

namespace Deferral

/-- The order of pairs. -/
def pairLe (p q : String × String) : Bool :=
  decide (p.1 < q.1) || (p.1 == q.1 && decide (p.2 ≤ q.2))

/-- The deferred pairs, ascending and each once. -/
def sortedPairs (d : Deferral) : List (String × String) := d.pairs.eraseDups.mergeSort pairLe

/-- Whether the reference between two objects is bound late. -/
def isDeferred (d : Deferral) (source target : String) : Bool := d.pairs.contains (source, target)

end Deferral

/-- Why the references of a schema cannot be put in order. -/
inductive DeferralError where
  /-- References that cannot be deferred form a circle. -/
  | unbreakable (component : List String)
  /-- A referenced object is not in the graph. -/
  | nodeUndefined (name : String)
  /-- Circles are left although all components were broken. -/
  | cyclesLeft

namespace DeferralError

/-- The message of a failure. -/
def message : DeferralError → String
  | .unbreakable component =>
    "Circular reference through required attributes cannot be broken between objects: "
      ++ ", ".intercalate component
  | .nodeUndefined name => Text.shown name
  | .cyclesLeft => "LOGIC BUG: cycles left after deferring edges"

end DeferralError

namespace ReferenceGraph

/-- The references inside a component. -/
def inside (g : ReferenceGraph) (component : List String) : Except DeferralError (List Reference) :=
  component.foldlM (fun found source =>
    match g.outgoing? source with
    | some refs => .ok (found ++ refs.filter fun r => component.contains r.target)
    | none => .error (.nodeUndefined source)) []

/-- The references of a component that are bound at once, as a graph. -/
def eager (component : List String) (refs : List Reference) (deferred : List (String × String)) :
    Digraph := (Digraph.mk component (refs.map Reference.pair)).without deferred

/-- The deferred pairs without that of a reference. -/
def trial (deferred : List (String × String)) (r : Reference) : List (String × String) :=
  deferred.filter (· ≠ r.pair)

/-- Take a deferred reference back if that leaves no circle of references that are bound at once. -/
def takeBack (component : List String) (refs : List Reference) (deferred : List (String × String))
    (r : Reference) : List (String × String) :=
  if (eager component refs (trial deferred r)).isAcyclic then trial deferred r else deferred

/-- The references of a component that are deferred. -/
def deferInside (component : List String) (refs : List Reference) :
    Except DeferralError (List (String × String)) :=
  let required := (refs.filter fun r => !r.isDeferrable).map Reference.pair
  if (Digraph.mk component required).isAcyclic then
    let candidates := refs.filter Reference.isDeferrable
    let hardestFirst := candidates.mergeSort fun r s => s.before r
    .ok (hardestFirst.foldl (takeBack component refs) (candidates.map Reference.pair))
  else .error (.unbreakable component)

/-- What is reported about a component. -/
def componentNotice (component : List String) (deferred : List (String × String)) : String :=
  "Circular references between " ++ ", ".intercalate component ++ ": deferring "
    ++ ", ".intercalate ((deferred.mergeSort Deferral.pairLe).map fun p => p.1 ++ " -> " ++ p.2)

/-- Defer references in one component after another. A component without references inside needs
nothing. -/
def deferComponents (g : ReferenceGraph) (d : Deferral) :
    List (List String) → Reporting DeferralError Deferral
  | [] => pure d
  | component :: rest => do
    let refs ← Reporting.ofExcept (g.inside component)
    if refs.isEmpty then deferComponents g d rest
    else
      let deferred ← Reporting.ofExcept (deferInside component refs)
      Reporting.report .debug (componentNotice component deferred)
      deferComponents g ⟨d.pairs ++ deferred, d.components ++ [component]⟩ rest

/-- The references of a graph that are deferred. -/
def defer (g : ReferenceGraph) : Reporting DeferralError Deferral := do
  let d ← deferComponents g ⟨[], []⟩ g.digraph.components
  unless (g.cyclesWithout d.pairs).isEmpty do
    throw .cyclesLeft
  Reporting.report .info
    (s!"Found {d.components.length} circular reference groups; "
      ++ s!"{d.pairs.length} references will be bound lazily")
  pure d

end ReferenceGraph

end EventSchema
