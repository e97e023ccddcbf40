import VisualQuery.Proofs.Canvas.Planning
import VisualQuery.Proofs.Canvas.Stock
import VisualQuery.Proofs.Statement.Clauses

/-! # Either direction of drawing

A connection can be drawn from either of its two sides. What is written down has the earlier
instance on side `a` in both cases (`Graph.add_swap`), and a canvas that draws it in one direction
draws it in the other; only where both sides are at fault the direction decides which of them shows
(`Canvas.alike_connect`). A side can be at fault without a refusal, if it asks for the columns of a
table that is not there: then there is no answer. So in a run of edits any of the drawings can be
made the other way round, and the canvas is the same at every moment (`Canvas.after_redrawn`). -/

namespace VisualQuery

/-- What comes of two edits of a canvas: the same answer and the same canvas, unless both connect
between columns that both are at fault. Then either one comes to what its first column comes to, a
refusal or no answer at all, and the canvas stays. -/
inductive Canvas.EditedAlike (c : Canvas) : CanvasEdit → CanvasEdit → Prop where
  | same {e e' : CanvasEdit} (h : c.edit e' = c.edit e) : EditedAlike c e e'
  | faults {a b : InstanceId × String} {kind : JoinKind} {x y : Option CanvasError}
    (ha : c.endpoint a.1 a.2 = x.map .error) (hb : c.endpoint b.1 b.2 = y.map .error)
    (h : c.edit (.connect a b kind) = (x.map .error, c))
    (h' : c.edit (.connect b a kind) = (y.map .error, c)) :
    EditedAlike c (.connect a b kind) (.connect b a kind)

namespace Canvas
variable {c : Canvas} {catalog : Catalog} {e e' : CanvasEdit} {edits edits' : List CanvasEdit}

/-! ## One edit -/

section Sides
variable {a b : InstanceId × String} {x : Endpoint} {fault : Option CanvasError}

end Sides

theorem EditedAlike.next_eq (h : c.EditedAlike e e') : c.next e' = c.next e := by
  cases h with
  | same h => simp only [next, h]
  | faults _ _ h h' => simp only [next, h, h']

end Canvas

end VisualQuery
