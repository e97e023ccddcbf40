import VisualQuery.Join.Graph
import VisualQuery.Join.Walk

/-!
Join orders. The instances are the nodes of a drawn graph, numbered by first mention, with one
edge from side `a` to side `b` for each related pair, in order of first drawing. A join order is
the reverse of the order in which a depth-first walk leaves the instances behind.
-/

namespace VisualQuery

/-- The ways a walk may follow an edge. -/
inductive Direction where
  /-- From side `a` to side `b` only. -/
  | forward
  | bothWays
deriving DecidableEq, Repr

/-- Adds an edge unless it is there. -/
def addEdge (edges : List (Nat × Nat)) (edge : Nat × Nat) : List (Nat × Nat) :=
  if edges.contains edge then edges else edges ++ [edge]

/-- The edges between the positions of related instances, each once, in order of first drawing. -/
def edges? (nodes : List InstanceId) (rs : List Relationship) : Option (List (Nat × Nat)) := do
  let pairs ← rs.mapM fun r => do
    let a ← nodes.idxOf? r.a.place
    let b ← nodes.idxOf? r.b.place
    pure (a, b)
  pure (pairs.foldl addEdge [])

/-- The node an edge leads to from `node`, if it may be followed from there. -/
def Direction.follow (d : Direction) (node : Nat) (edge : Nat × Nat) : Option Nat :=
  if edge.1 = node then some edge.2
  else match d with
    | .forward => none
    | .bothWays => if edge.2 = node then some edge.1 else none

def Direction.neighbours (d : Direction) (n : Nat) (edges : List (Nat × Nat)) : Walk.Neighbours :=
  (List.range n).map fun node => edges.filterMap (d.follow node)

def joinOrder? (d : Direction) (nodes : List InstanceId) (rs : List Relationship) :
    Option (List InstanceId) := do
  let edges ← edges? nodes rs
  let walked ← Walk.all (d.neighbours nodes.length edges)
  walked.left.reverse.mapM fun node => nodes[node]?

end VisualQuery
