import EventSchema.Table
import EventSchema.NameSet

/-!
# Placing names behind what they need

Names are placed one after another, each behind all the names that it needs, the smallest possible
one first. Kahn's algorithm keeps a queue of the names that may be placed: those that wait for no
name that has no place. When a name is placed, the names that wait for it no longer do, and those
that wait for nothing else then enter the queue.

A name enters the queue when the last name that it waits for is placed, so the number of all names
bounds the steps (`Queue.order_start`).
-/

namespace EventSchema.Package

/-- How far names are placed. -/
structure Queue where
  /-- What each name still waits for. -/
  waits : Table NameSet
  /-- Which names need each name. -/
  dependents : Table NameSet
  /-- The names that may be placed, ascending. -/
  ready : List String

namespace Queue

/-- Enter a name into an ascending queue, which may have it already. -/
def push (n : String) : List String → List String
  | [] => [n]
  | m :: ms => if n ≤ m then n :: m :: ms else m :: push n ms

/-- The names that are kept for a name. -/
def namesOf (sets : Table NameSet) (n : String) : NameSet := (sets.get? n).getD .empty

/-- Note that a name needs another one. -/
def addDependent (dependents : Table NameSet) (e : String × String) : Table NameSet :=
  dependents.put e.2 ((namesOf dependents e.2).insert e.1)

/-- No name is placed. -/
def start (needs : String → List String) (names : List String) : Queue where
  waits := .ofList (names.map fun n => (n, .ofList (needs n)))
  dependents := (names.flatMap fun n => (NameSet.ofList (needs n)).toList.map fun m => (n, m)).foldl
    addDependent (.ofList (names.map fun n => (n, .empty)))
  ready := (names.filter fun n => (NameSet.ofList (needs n)).isEmpty).foldr push []

/-- A name that waited for another one no longer does. It enters the queue if it waits for nothing
else. -/
def release (placed : String) (q : Queue) (n : String) : Queue :=
  let left := (namesOf q.waits n).erase placed
  { q with waits := q.waits.put n left, ready := if left.isEmpty then push n q.ready else q.ready }

/-- Place a name: release the names that need it. -/
def place (q : Queue) (n : String) : Queue := (namesOf q.dependents n).toList.foldl (release n) q

/-- Place the smallest name of the queue as long as there is one. -/
def order : (steps : Nat) → Queue → List String
  | 0, _ => []
  | steps + 1, q =>
    match q.ready with
    | [] => []
    | n :: rest => n :: order steps (place { q with ready := rest } n)

end Queue

end EventSchema.Package
