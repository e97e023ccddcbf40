import VisualQuery.Grid.Column
import VisualQuery.Join.Plan

/-!
The clauses of a statement: what the join plan and the grid columns add to SELECT, FROM, WHERE,
GROUP BY and ORDER BY. The conditions of different columns stay apart as groups.
-/

namespace VisualQuery

structure Clauses where
  select : List String
  source : String
  conditions : List String
  groupBy : List String
  orderBy : List String
deriving DecidableEq, Repr

namespace Clauses

def ofColumns (totals : Bool) (columns : List GridColumn) (source : String) : Clauses :=
  let parts := columns.map (GridColumn.contribution totals)
  { select := parts.filterMap (·.select)
    source := source
    conditions := parts.filterMap (·.criteria)
    groupBy := parts.filterMap (·.groupBy)
    orderBy := parts.filterMap (·.orderBy) }

end Clauses

structure QueryCompiler where
  catalog : Catalog
  totals : Bool
deriving DecidableEq, Repr

namespace QueryCompiler

def new (catalog : Catalog) : QueryCompiler := ⟨catalog, false⟩

def withTotals (c : QueryCompiler) (enabled : Bool) : QueryCompiler := { c with totals := enabled }

/-- The other mode; columns are left as they are. -/
def toggleTotals (c : QueryCompiler) : QueryCompiler := { c with totals := !c.totals }

/-- The clauses of grid columns over a graph: the plan comes first. -/
def compile? (c : QueryCompiler) (columns : List GridColumn) (graph : Graph) :
    Option (Except PlanError Clauses) := do
  match ← graph.plan? c.catalog with
  | .error e => pure (.error e)
  | .ok plan => pure (.ok (.ofColumns c.totals columns plan.source))

end QueryCompiler

/-- The clauses of grid columns over a graph, without a compiler that is kept. -/
def Clauses.compile? (catalog : Catalog) (totals : Bool) (columns : List GridColumn)
    (graph : Graph) : Option (Except PlanError Clauses) :=
  ((QueryCompiler.new catalog).withTotals totals).compile? columns graph

end VisualQuery
