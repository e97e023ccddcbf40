import VisualQuery.Proofs.Statement.Clauses
import VisualQuery.Proofs.Statement.Predicate

/-! # Clauses without and with totals

Totals change the name that a column goes by, and they are what puts it into the GROUP BY clause.
Without them a column contributes what it would with totals if it had no aggregate
(`contribution_withoutAggregate`). The same columns compiled without and with totals differ column
by column: in SELECT and in the conditions the display name stands alone or inside the function,
ORDER BY takes no notice, and GROUP BY is there with totals only (`compile?_totals`). -/

namespace VisualQuery

namespace GridColumn

def withoutAggregate (g : GridColumn) : GridColumn := { g with aggregate := .none }

def wrapped (g : GridColumn) : String :=
  match g.aggregate.function? with
  | some f => f ++ "(" ++ g.displayName ++ ")"
  | none => g.displayName

/-- What a column asks for under a name: any of its criteria. -/
def group (g : GridColumn) (name : String) : String :=
  " OR ".intercalate (g.given.map fun v => name ++ " = " ++ v)

end GridColumn

structure Clauses.Totalled (columns : List GridColumn) (off on : Clauses) : Prop where
  source : on.source = off.source
  orderBy : on.orderBy = off.orderBy
  select_off : off.select = (columns.filter (·.visible)).map (·.displayName)
  select_on : on.select = (columns.filter (·.visible)).map (·.wrapped)
  conditions_off : off.conditions =
    (columns.filter (·.given ≠ [])).map fun g => g.group g.displayName
  conditions_on : on.conditions = (columns.filter (·.given ≠ [])).map fun g => g.group g.wrapped
  groupBy_off : off.groupBy = []
  /-- A column need not be shown to be grouped by. -/
  groupBy_on : on.groupBy = (columns.filter (·.aggregate = .groupBy)).map (·.displayName)
  /-- The name of a column changes just if its aggregate has a function. -/
  changed : ∀ g ∈ columns, g.wrapped = g.displayName ↔ g.aggregate = .none ∨ g.aggregate = .groupBy

/-! ## One column -/

namespace GridColumn

theorem effectiveName_off (g : GridColumn) : g.effectiveName false = g.displayName := rfl

theorem effectiveName_on (g : GridColumn) : g.effectiveName true = g.wrapped := by
  unfold effectiveName wrapped
  cases g.aggregate.function? <;> rfl

theorem effectiveName_withoutAggregate (g : GridColumn) (totals : Bool) :
    g.withoutAggregate.effectiveName totals = g.displayName := by
  cases totals <;> rfl

/-- A function adds at least its parentheses. -/
theorem wrapped_eq_iff (g : GridColumn) :
    g.wrapped = g.displayName ↔ g.aggregate = .none ∨ g.aggregate = .groupBy := by
  have hlonger : ∀ f : String, f ++ "(" ++ g.displayName ++ ")" ≠ g.displayName := by
    intro f h
    have hlength := congrArg (·.toList.length) h
    simp at hlength
    omega
  unfold wrapped
  cases g.aggregate <;> simp [Aggregate.function?, hlonger]

/-- Without totals a column contributes what it would with totals if it had no aggregate. -/
theorem contribution_withoutAggregate (g : GridColumn) :
    g.withoutAggregate.contribution true = g.contribution false := by
  have hconditions : g.withoutAggregate.conditions true = g.conditions false := by
    unfold conditions
    rw [effectiveName_withoutAggregate, effectiveName_off]
    rfl
  unfold contribution
  rw [effectiveName_withoutAggregate, effectiveName_off, hconditions]
  rfl

end GridColumn

/-! ## All columns -/

namespace Clauses

theorem select_ofColumns (totals : Bool) (columns : List GridColumn) (source : String) :
    (ofColumns totals columns source).select =
      (columns.filter (·.visible)).map (·.effectiveName totals) := by
  rw [← List.filterMap_eq_map, List.filterMap_filter]
  exact List.filterMap_map ..

theorem groupBy_ofColumns (totals : Bool) (columns : List GridColumn) (source : String) :
    (ofColumns totals columns source).groupBy =
      (columns.filter fun g => totals && g.aggregate = .groupBy).map (·.effectiveName totals) := by
  rw [← List.filterMap_eq_map, List.filterMap_filter]
  exact List.filterMap_map ..

/-- Sorting goes by display names, with totals and without. -/
theorem orderBy_ofColumns (columns : List GridColumn) (source : String) :
    (ofColumns true columns source).orderBy = (ofColumns false columns source).orderBy := by
  simp only [ofColumns, List.filterMap_map]
  rfl

theorem totalled_ofColumns (columns : List GridColumn) (source : String) :
    Totalled columns (ofColumns false columns source) (ofColumns true columns source) where
  source := rfl
  orderBy := orderBy_ofColumns columns source
  select_off := select_ofColumns false columns source
  select_on := by simp only [select_ofColumns, GridColumn.effectiveName_on]
  conditions_off := conditions_ofColumns false columns source
  conditions_on := by
    simp only [conditions_ofColumns, GridColumn.conditions_eq, GridColumn.effectiveName_on,
      GridColumn.group]
  groupBy_off := by simp [groupBy_ofColumns]
  groupBy_on := by
    rw [groupBy_ofColumns]
    refine List.map_congr_left fun g hg => ?_
    have hgroup : g.aggregate = .groupBy := by simpa using (List.mem_filter.mp hg).2
    rw [GridColumn.effectiveName_on, g.wrapped_eq_iff]
    exact .inr hgroup
  changed g _ := g.wrapped_eq_iff

/-- **What totals change.** Compiling without totals is compiling with totals after every aggregate
has been taken away. Over the same graph and the same columns both modes have the same error, or
clauses that differ by the functions around display names and by the GROUP BY clause; and where the
catalog was read and the graph was drawn, there is an answer. -/
theorem compile?_totals (catalog : Catalog) (graph : Graph) (columns : List GridColumn) :
    compile? catalog false columns graph =
      compile? catalog true (columns.map (·.withoutAggregate)) graph ∧
    Option.Rel (Mirrors id (Totalled columns)) (compile? catalog false columns graph)
      (compile? catalog true columns graph) ∧
    ∀ edits, catalog.Built → graph = Graph.empty.after edits →
      ∃ answer, compile? catalog false columns graph = some answer := by
  have hplain : columns.map (GridColumn.contribution false) =
      (columns.map (·.withoutAggregate)).map (GridColumn.contribution true) := by
    simp only [List.map_map, Function.comp_def, GridColumn.contribution_withoutAggregate]
  refine ⟨compile?_congr hplain, ?_, ?_⟩
  · rw [compile?_eq, compile?_eq]
    cases graph.plan? catalog with
    | none => exact .none
    | some planned =>
      cases planned with
      | error e => exact .some (.error e)
      | ok plan => exact .some (.ok (totalled_ofColumns columns plan.source))
  · rintro edits hc rfl
    exact exists_compile? edits hc false columns

/-- A region that is grouped by and not shown, a sum with a criterion, and a date. -/
def totalsByRegion : List GridColumn :=
  [{ GridColumn.named "region" with aggregate := .groupBy, visible := false },
    { GridColumn.named "total" with aggregate := .sum, sort := .descending, criteria := ["100"] },
    GridColumn.named "date"]

theorem compile?_totals_byRegion : Catalog.shop.Built ∧ ∃ off on,
    compile? Catalog.shop false totalsByRegion (Graph.empty.after hub) = some (.ok off) ∧
    compile? Catalog.shop true totalsByRegion (Graph.empty.after hub) = some (.ok on) ∧
    Totalled totalsByRegion off on ∧
    (off.select, off.conditions, off.groupBy, off.orderBy) =
      (["total", "date"], ["total = 100"], [], ["total desc"]) ∧
    (on.select, on.conditions, on.groupBy, on.orderBy) =
      (["sum(total)", "date"], ["sum(total) = 100"], ["region"], ["total desc"]) := by
  have h := (compile?_totals Catalog.shop (Graph.empty.after hub) totalsByRegion).2.1
  refine ⟨Catalog.built_shop, _, _, rfl, rfl, ?_, by decide, by decide⟩
  cases h with
  | some h =>
    cases h with
    | ok h => exact h

end Clauses

end VisualQuery
