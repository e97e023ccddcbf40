/-!
Depth-first walks over numbered nodes. A walk leaves a node behind when everything it can reach
from it through unvisited nodes has been left behind before; the nodes are recorded in that order.
Each call marks one more node, so as many nested calls as there are nodes suffice. A neighbour
that is no node has no mark, and a walk that meets one gives nothing.
-/

namespace VisualQuery.Walk

inductive Mark where
  | unvisited
  | inProgress
  | done
deriving DecidableEq, Repr

/-- For each node its neighbours, in the order in which a walk tries them. -/
abbrev Neighbours := List (List Nat)

/-- The marks of all nodes, and the nodes left behind so far, in that order. -/
structure State where
  marks : List Mark
  left : List Nat
deriving DecidableEq, Repr

def State.start (n : Nat) : State := ⟨List.replicate n .unvisited, []⟩

/-- Gives a node another mark; it has to have one. -/
def setMark? (marks : List Mark) (node : Nat) (m : Mark) : Option (List Mark) :=
  if node < marks.length then some (marks.set node m) else none

/-- Visits a node and everything it can reach through unvisited nodes. -/
def visit (neighbours : Neighbours) : Nat → Nat → State → Option State
  | 0, _, _ => none
  | fuel + 1, node, s => do
    let marks ← setMark? s.marks node .inProgress
    let next ← neighbours[node]?
    let s ← next.foldlM
      (fun s other => do
        match ← s.marks[other]? with
        | .unvisited => visit neighbours fuel other s
        | .inProgress | .done => pure s)
      { s with marks := marks }
    let marks ← setMark? s.marks node .done
    pure ⟨marks, s.left ++ [node]⟩

/-- Visits a node unless it has been visited. -/
def visitNew (neighbours : Neighbours) (fuel : Nat) (s : State) (node : Nat) : Option State := do
  match ← s.marks[node]? with
  | .unvisited => visit neighbours fuel node s
  | .inProgress | .done => pure s

def all (neighbours : Neighbours) : Option State :=
  (List.range neighbours.length).foldlM (visitNew neighbours neighbours.length)
    (State.start neighbours.length)

end VisualQuery.Walk
