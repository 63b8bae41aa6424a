import EventSchema.Digraph.Basic
import EventSchema.Table

/-!
# Strongly connected components

Nodes that reach each other form a component. Tarjan's algorithm finds all components in one depth
first search: nodes are numbered as the search comes to them, and stand on a stack until their
component is complete. The low link of a node is a number on the stack that it is known to lead back
to. Where this is its own number, the node is the first of its component, and the rest of the
component stands above it.
-/

namespace EventSchema.Digraph

/-- How far a search for components has come. -/
structure Search where
  /-- The number of the next node. -/
  counter : Nat
  /-- The numbers of the nodes that the search came to. -/
  indices : Table Nat
  /-- The nodes whose components are not complete, the last one first. -/
  stack : List String
  /-- The components that are complete, each ascending. -/
  components : List (List String)

namespace Search

/-- The search has not come to any node. -/
def start : Search := ⟨0, .empty, [], []⟩

/-- Come to a node: give it the next number and put it on the stack. -/
def enter (s : Search) (v : String) : Search :=
  { s with counter := s.counter + 1, indices := s.indices.put v s.counter, stack := v :: s.stack }

/-- Take a node off the stack, and all above it, as a component. -/
def complete (s : Search) (v : String) : Search :=
  { s with
    stack := (s.stack.dropWhile (· ≠ v)).tail
    components := s.components ++ [(NameSet.ofList (s.stack.takeWhile (· ≠ v) ++ [v])).toList] }

/-- Follow an edge to a node. The low link of its start becomes the one of the node if the search
had not come to that, and its number if it stands on the stack, where these are lower. -/
def follow (connect : Search → String → Search × Nat) : Search × Nat → String → Search × Nat
  | (s, low), w =>
    match s.indices.get? w with
    | none =>
      let (s', lowOfNext) := connect s w
      (s', min low lowOfNext)
    | some i => if s.stack.contains w then (s, min low i) else (s, low)

/-- Come to a node, follow its edges, and take its component off the stack if the node is the first
of it. The low link of the node comes with what the search has come to. -/
def connect (next : String → List String) : (depth : Nat) → Search → String → Search × Nat
  | 0, s, _ => (s, s.counter)
  | depth + 1, s, v =>
    let (s', low) :=
      (next v).foldl (follow fun s w => connect next depth s w) (s.enter v, s.counter)
    (if low = s.counter then s'.complete v else s', low)

/-- Start from one node after another, unless the search came to it before. -/
def run (next : String → List String) (depth : Nat) (s : Search) (nodes : List String) : Search :=
  nodes.foldl (fun s v => if s.indices.has v then s else (connect next depth s v).1) s

end Search

/-- The strongly connected components, each ascending; an edge between two of them leads to the
earlier one. -/
def components (g : Digraph) : List (List String) :=
  (Search.run g.successors (g.vertices.length + 1) .start g.vertices).components

/-- Whether a component has a cycle: whether it has several nodes or an edge from its only node to
itself. -/
def isCyclicComponent (g : Digraph) (component : List String) : Bool :=
  match component with
  | [v] => g.edges.contains (v, v)
  | _ => 1 < component.length

/-- The components with cycles. -/
def cycles (g : Digraph) : List (List String) := g.components.filter g.isCyclicComponent

end EventSchema.Digraph
