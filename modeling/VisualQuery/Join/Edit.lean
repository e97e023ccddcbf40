import VisualQuery.Join.Graph

/-!
Edits of a graph as values, and runs of them. There is a graph behind a refused edit too, so that
every list of edits leads somewhere.
-/

namespace VisualQuery

inductive GraphEdit where
  | add (a b : Endpoint) (kind : JoinKind)
  | removeTouching (e : Endpoint)
  | remove (id : RelationshipId)
  | cycleKind (id : RelationshipId)
  | setKind (id : RelationshipId) (kind : JoinKind)
deriving DecidableEq, Repr

inductive GraphAnswer where
  | added (id : RelationshipId)
  /-- How many relationships an endpoint took with it. -/
  | dropped (count : Nat)
  | removed (r : Relationship)
  | cycled (kind : JoinKind)
  | done
deriving DecidableEq, Repr

namespace Graph

/-- Carries out an edit: the answer, and the graph behind it. -/
def edit (g : Graph) : GraphEdit → Except GraphError GraphAnswer × Graph
  | .add a b kind =>
    let (answer, g) := g.add a b kind
    (answer.map .added, g)
  | .removeTouching e =>
    let rest := g.removeTouching e
    (.ok (.dropped (g.relationships.length - rest.relationships.length)), rest)
  | .remove id =>
    let (answer, g) := g.remove id
    (answer.map .removed, g)
  | .cycleKind id =>
    let (answer, g) := g.cycleKind id
    (answer.map .cycled, g)
  | .setKind id kind =>
    let (answer, g) := g.setKind id kind
    (answer.map fun _ => .done, g)

def answer (g : Graph) (e : GraphEdit) : Except GraphError GraphAnswer := (g.edit e).1

/-- The graph behind an edit, carried out or refused. -/
def next (g : Graph) (e : GraphEdit) : Graph := (g.edit e).2

def after (g : Graph) (edits : List GraphEdit) : Graph := edits.foldl next g

end Graph

end VisualQuery
