import VisualQuery.Canvas.Basic
import VisualQuery.Catalog.Description
import VisualQuery.Document.Reading
import VisualQuery.Settings.Basic

/-!
Queries: documents placed on a canvas. First all tables are placed, then the relationships are
drawn, then the grid columns are picked; the first entry that cannot be carried out ends it. Columns
are looked up by the number of their table, so that it takes the right catalog to get an answer.
-/

namespace VisualQuery

structure Query where
  canvas : Canvas
  columns : List GridColumn
  totals : Bool
deriving DecidableEq, Repr

inductive DocumentError where
  | unreadable (fault : Json.Fault)
  | catalog (cause : CatalogError)
  | unknownTable (schema table : String)
  | unknownPlacement (position : Nat)
  | canvas (cause : CanvasError)
deriving DecidableEq, Repr

def DocumentError.message : DocumentError → String
  | .unreadable fault => "Failed to parse query document: " ++ fault.message
  | .catalog cause => cause.message
  | .unknownTable schema table => s!"Table not found in catalog: {schema}.{table}"
  | .unknownPlacement position => s!"Placement {position} does not exist"
  | .canvas cause => cause.message

namespace Document

/-- Goes on with what the canvas answered, or refuses the document as the canvas did. -/
def onCanvas {α : Type} (answer : Option (Except CanvasError α)) : ExceptT DocumentError Option α :=
  ExceptT.mk (answer.map fun
    | .ok x => .ok x
    | .error cause => .error (.canvas cause))

def placeTables (canvas : Canvas) :
    List SavedTable → Except DocumentError (Canvas × List InstanceId)
  | [] => .ok (canvas, [])
  | t :: rest =>
    match canvas.catalog.findTable? t.schema t.table with
    | none => .error (.unknownTable t.schema t.table)
    | some table => do
      let (i, canvas) := canvas.place table
      let (canvas, placed) ← placeTables canvas rest
      pure (canvas, i :: placed)

def instanceAt (placed : List InstanceId) (position : Nat) : Except DocumentError InstanceId :=
  match placed[position]? with
  | some i => .ok i
  | none => .error (.unknownPlacement position)

/-- Draws a relationship. Both placements are looked up before either column. -/
def drawRelationship (placed : List InstanceId) (defaultKind : JoinKind) (canvas : Canvas)
    (r : SavedRelationship) : ExceptT DocumentError Option Canvas := do
  let a ← instanceAt placed r.a.position
  let b ← instanceAt placed r.b.position
  let (answer, canvas) :=
    canvas.connect (a, r.a.column) (b, r.b.column) (r.kind.getD defaultKind)
  let _ ← onCanvas answer
  pure canvas

def pickColumn (placed : List InstanceId) (canvas : Canvas) (s : SavedGridColumn) :
    ExceptT DocumentError Option GridColumn := do
  let i ← instanceAt placed s.source.position
  let e ← onCanvas (canvas.endpoint i s.source.column)
  let picked ← GridColumn.picked? canvas.catalog e
  let column := { picked with sort := s.sort, visible := s.visible }.withCriteria s.criteria
  pure { column with
    aggregate := s.aggregate.getD column.aggregate
    displayName := s.name.getD column.displayName }

def ownCatalog (d : Document) : Except DocumentError Catalog :=
  match Catalog.ofValue d.catalog with
  | .ok c => .ok c
  | .error cause => .error (.catalog cause)

/-- Places a document on a canvas over a catalog, if every look-up by number finds something. -/
def load? (d : Document) (catalog : Catalog) (defaults : Defaults) :
    Option (Except DocumentError Query) := ExceptT.run do
  let (canvas, placed) ← placeTables (.blank catalog) d.tables
  let canvas ← d.relationships.foldlM (drawRelationship placed defaults.joinKind) canvas
  let columns ← d.columns.mapM (pickColumn placed canvas)
  pure ⟨canvas, columns, d.totals.getD defaults.totals⟩

end Document

def Query.compile? (q : Query) : Option (Except PlanError Clauses) :=
  Clauses.compile? q.canvas.catalog q.totals q.columns q.canvas.graph

end VisualQuery
