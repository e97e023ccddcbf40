import VisualQuery.Grid.Column
import VisualQuery.Json.Value

/-!
Documents: a saved canvas. A document brings its own catalog description, lists the tables to
place, and refers to them by their position in that list.
-/

namespace VisualQuery

/-- A table to place, by name. -/
structure SavedTable where
  schema : String
  table : String
deriving DecidableEq, Repr

structure SavedColumn where
  position : Nat
  column : String
deriving DecidableEq, Repr

/-- A relationship between two columns; the kind may be left to the settings. -/
structure SavedRelationship where
  a : SavedColumn
  b : SavedColumn
  kind : Option JoinKind
deriving DecidableEq, Repr

/-- A column of the query grid. Name and aggregate may be left to the column itself. -/
structure SavedGridColumn where
  source : SavedColumn
  name : Option String
  aggregate : Option Aggregate
  sort : SortDirection
  visible : Bool
  criteria : List String
deriving DecidableEq, Repr

structure Document where
  catalog : Json.Value
  tables : List SavedTable
  relationships : List SavedRelationship
  columns : List SavedGridColumn
  totals : Option Bool

end VisualQuery
