import VisualQuery.Proofs.Join.Outcome
import VisualQuery.Statement.Clauses

/-! # Clauses of a plan

Clauses are made of a plan and of what the columns add to it, and the two meet in the FROM text
only (`compile?_eq`). So columns that contribute the same have the same clauses
(`compile?_congr`), and whatever was drawn has clauses or an error of the plan
(`exists_compile?`). -/

namespace VisualQuery.Clauses

variable {catalog : Catalog} {totals totals' : Bool} {columns columns' : List GridColumn}
  {graph : Graph} {clauses : Clauses}

/-- **The plan comes first**: its error is the answer, and of a plan only the FROM text is used. -/
theorem compile?_eq (catalog : Catalog) (totals : Bool) (columns : List GridColumn)
    (graph : Graph) : compile? catalog totals columns graph =
      (graph.plan? catalog).map (mapBoth id fun plan => ofColumns totals columns plan.source) := by
  unfold compile? QueryCompiler.compile?
  show (graph.plan? catalog >>= _) = _
  cases graph.plan? catalog with
  | none => rfl
  | some answer => cases answer <;> rfl

theorem eq_ofColumns_of_compile? (h : compile? catalog totals columns graph = some (.ok clauses)) :
    ∃ source, clauses = ofColumns totals columns source := by
  rw [compile?_eq] at h
  obtain ⟨planned, _, h⟩ := Option.map_eq_some_iff.mp h
  cases planned with
  | error e => cases h
  | ok plan =>
    cases h
    exact ⟨plan.source, rfl⟩

/-- Clauses depend on what the columns contribute, with totals or without. -/
theorem compile?_congr
    (h : columns'.map (GridColumn.contribution totals') =
      columns.map (GridColumn.contribution totals)) :
    compile? catalog totals' columns' graph = compile? catalog totals columns graph := by
  have hclauses : ∀ source, ofColumns totals' columns' source = ofColumns totals columns source := by
    intro source
    unfold ofColumns
    rw [h]
  simp only [compile?_eq, hclauses]

/-- Compiling always answers: no look-up misses, whatever was drawn. -/
theorem exists_compile? (edits : List GraphEdit) (hc : catalog.Built) (totals : Bool)
    (columns : List GridColumn) :
    ∃ answer, compile? catalog totals columns (Graph.empty.after edits) = some answer := by
  obtain ⟨planned, hplan⟩ := exists_answer edits hc
  exact ⟨_, by rw [compile?_eq, hplan, Option.map_some]⟩

end VisualQuery.Clauses
