import EventSchema.Digraph.Basic
import EventSchema.Table

/-!
# Deciding acyclicity

A graph has no directed cycle exactly when its nodes can be placed one after another, each behind
the nodes that have edges to it. Kahn's algorithm looks for such places with a count for each node:
the edges that lead to it from nodes without a place, a repeated edge as often as it is given. Nodes
without a count may be placed, and placing a node lowers the counts of what its edges lead to. The
nodes of a cycle wait for each other, so they are never placed.

Every step places a node that had no place, so the number of nodes bounds the steps.
-/

namespace EventSchema.Digraph

/-- The ends of the edges from a node, as often as the edges are given. -/
def targets (g : Digraph) (v : String) : List String :=
  (g.edges.filter fun e => e.1 = v).map Prod.snd

/-- How far the nodes of a graph are placed. -/
structure Placing where
  /-- For each node, the number of edges to it from nodes without a place. -/
  counts : Table Nat
  /-- The nodes that may be placed, the next one first. -/
  ready : List String
  /-- The number of nodes that have a place. -/
  placed : Nat

namespace Placing

/-- Count an edge where it leads to. -/
def countEdge (counts : Table Nat) (e : String × String) : Table Nat :=
  counts.put e.2 ((counts.get? e.2).getD 0 + 1)

/-- The edges to each node, nodes in the order in which they are given. -/
def countEdges (g : Digraph) : Table Nat :=
  g.edges.foldl countEdge
    (.ofList ((g.nodes ++ g.edges.flatMap fun e => [e.1, e.2]).map fun v => (v, 0)))

/-- No node is placed; the last one of those that no edge leads to comes first. -/
def start (g : Digraph) : Placing :=
  let counts := countEdges g
  ⟨counts, ((counts.entries.filter fun e => e.2 = 0).map Prod.fst).reverse, 0⟩

/-- Take an edge to a node back. The node may be placed if no other edge counts. -/
def lower (s : Placing) (w : String) : Placing :=
  let count := (s.counts.get? w).getD 0 - 1
  { s with counts := s.counts.put w count, ready := if count = 0 then w :: s.ready else s.ready }

/-- Place a node: take back the edges from it. -/
def place (g : Digraph) (s : Placing) (v : String) : Placing :=
  (g.targets v).foldl lower { s with placed := s.placed + 1 }

/-- Place nodes as long as some may be placed. -/
def run (g : Digraph) : (steps : Nat) → Placing → Placing
  | 0, s => s
  | steps + 1, s =>
    match s.ready with
    | [] => s
    | v :: rest => run g steps (place g { s with ready := rest } v)

end Placing

/-- Whether the graph has no directed cycle: whether every node gets a place.

The ends of an edge are counted among the nodes even if they are not given by themselves. A run that
keeps counts for the given nodes alone would fail with a missing key at such an end; on graphs whose
edges run between given nodes the two are the same. -/
def isAcyclic (g : Digraph) : Bool :=
  let start := Placing.start g
  (Placing.run g start.counts.size start).placed == start.counts.size

end EventSchema.Digraph
