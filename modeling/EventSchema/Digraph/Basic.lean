import EventSchema.NameSet

/-!
# Directed graphs on names

Finite directed graphs given by nodes and edges. The ends of edges count as nodes, and repeated
nodes and edges count once, so everything below depends on the sets of nodes and edges alone: nodes
and successors are always taken in ascending order.

`explore` goes depth first and lists nodes when it leaves them. Every step into the depth marks a
node that was not marked, so the number of nodes bounds the depth.
-/

namespace EventSchema

/-- A finite directed graph. -/
structure Digraph where
  /-- The nodes that are given by themselves. -/
  nodes : List String
  /-- The edges, each from its first to its second component. -/
  edges : List (String × String)

namespace Digraph

/-- All nodes, ascending. -/
def vertices (g : Digraph) : List String :=
  (NameSet.ofList (g.nodes ++ g.edges.flatMap fun e => [e.1, e.2])).toList

/-- The nodes that a node has edges to, ascending. -/
def successors (g : Digraph) (v : String) : List String :=
  (NameSet.ofList ((g.edges.filter fun e => e.1 = v).map Prod.snd)).toList

/-- Go depth first from the nodes of `todo`, past the marked ones, and list what is met in the order
of leaving it. -/
def explore (next : String → List String) :
    (depth : Nat) → (marked todo : List String) → List String
  | 0, _, _ => []
  | depth + 1, marked, todo =>
    todo.foldl (fun left v =>
      if marked.contains v || left.contains v then left
      else left ++ explore next depth (v :: left ++ marked) (next v) ++ [v]) []

/-- The same nodes without some of the edges. -/
def without (g : Digraph) (removed : List (String × String)) : Digraph :=
  ⟨g.nodes, g.edges.filter fun e => !removed.contains e⟩

end Digraph

end EventSchema
