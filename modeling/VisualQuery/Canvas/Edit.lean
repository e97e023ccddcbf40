import VisualQuery.Canvas.Basic
import VisualQuery.Join.Edit

/-!
Edits of a canvas as values, and runs of them. The graph on a canvas can be edited directly too,
and then holds endpoints that no placement answers for.
-/

namespace VisualQuery

inductive CanvasEdit where
  | place (table : TableId)
  | remove (i : InstanceId)
  | connect (a b : InstanceId × String) (kind : JoinKind)
  /-- An edit of the graph, past the placements. -/
  | graph (e : GraphEdit)
deriving DecidableEq, Repr

inductive CanvasAnswer where
  | placed (i : InstanceId)
  | removed (p : Placement)
  | connected (id : RelationshipId)
  | graph (answer : GraphAnswer)
deriving DecidableEq, Repr

namespace Canvas

/-- Carries out an edit: the answer, if it gets that far, and the canvas behind it. -/
def edit (c : Canvas) : CanvasEdit → Option (Except CanvasError CanvasAnswer) × Canvas
  | .place table =>
    let (i, c) := c.place table
    (some (.ok (.placed i)), c)
  | .remove i =>
    let (answer, c) := c.remove i
    (answer.map (·.map .removed), c)
  | .connect a b kind =>
    let (answer, c) := c.connect a b kind
    (answer.map (·.map .connected), c)
  | .graph e =>
    match c.graph.edit e with
    | (.ok answer, g) => (some (.ok (.graph answer)), { c with graph := g })
    | (.error cause, g) => (some (.error (.graph cause)), { c with graph := g })

def answer (c : Canvas) (e : CanvasEdit) : Option (Except CanvasError CanvasAnswer) := (c.edit e).1

/-- The canvas behind an edit, carried out or not. -/
def next (c : Canvas) (e : CanvasEdit) : Canvas := (c.edit e).2

def after (c : Canvas) (edits : List CanvasEdit) : Canvas := edits.foldl next c

end Canvas

end VisualQuery
