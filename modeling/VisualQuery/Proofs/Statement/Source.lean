import Mathlib.Data.List.DropRight
import VisualQuery.Proofs.Catalog.Building
import VisualQuery.Proofs.Join.Shape
import VisualQuery.Proofs.Statement.Clauses
import VisualQuery.Statement.Sql

/-! # The FROM clause of a statement

The FROM text of a plan ends in the name of a column and one blank (`exists_source_eq`). The
statement takes off that blank by trimming. A name may not be blank as a whole, so trimming stops
inside the last name at the latest and loses nothing in front of it; but a name may end in blanks,
and where the last one does, they are lost as well (`hasSource_decided`). -/

namespace VisualQuery

namespace Text

def endsBlank (s : String) : Bool := s.toList.getLast?.any isBlank

def trailing (s : String) : String := String.ofList (s.toList.rtakeWhile isBlank)

variable {s : String}

theorem trimEnd_append_trailing (s : String) : trimEnd s ++ trailing s = s := by
  rw [trimEnd, trailing, ← String.ofList_append]
  exact (congrArg String.ofList List.rdropWhile_append_rtakeWhile).trans String.ofList_toList

theorem isBlank_of_mem_trailing {c : Char} (h : c ∈ (trailing s).toList) : isBlank c = true := by
  rw [trailing, String.toList_ofList] at h
  exact List.mem_rtakeWhile_imp h

theorem trimEnd_eq_self_iff : trimEnd s = s ↔ endsBlank s = false := by
  have hself : trimEnd s = s ↔ s.toList.rdropWhile isBlank = s.toList := by
    rw [← String.toList_inj, trimEnd, String.toList_ofList]
    rfl
  rw [hself, List.rdropWhile_eq_self_iff, endsBlank]
  cases h : s.toList using List.reverseRecOn <;> simp

theorem endsBlank_trimEnd (s : String) : endsBlank (trimEnd s) = false := by
  rw [← trimEnd_eq_self_iff]
  simp only [trimEnd, String.toList_ofList]
  exact congrArg String.ofList (List.rdropWhile_idempotent isBlank s.toList)

theorem dropTrailing_ne_nil (h : blank s = false) : dropTrailing s.toList ≠ [] := by
  intro hnil
  have hall : ∀ c ∈ s.toList, isBlank c = true := List.rdropWhile_eq_nil_iff.mp hnil
  rw [blank, List.all_eq_true.mpr hall] at h
  cases h

theorem trimEnd_ne_empty (h : blank s = false) : trimEnd s ≠ "" := fun hempty =>
  dropTrailing_ne_nil h (String.ofList_eq_empty_iff.mp hempty)

/-- One blank at the end makes no difference. -/
theorem trimEnd_append_blank (s : String) : trimEnd (s ++ " ") = trimEnd s := by
  have hdrop : dropTrailing (s.toList ++ [' ']) = dropTrailing s.toList :=
    List.rdropWhile_concat_pos isBlank s.toList ' ' rfl
  rw [trimEnd, String.toList_append, show " ".toList = [' '] from rfl, hdrop, trimEnd]

/-- Trimming does not go beyond a text that is not blank. -/
theorem trimEnd_append (front : String) (h : blank s = false) :
    trimEnd (front ++ s) = front ++ trimEnd s := by
  have hstop : s.toList.reverse.dropWhile isBlank ≠ [] :=
    List.reverse_ne_nil_iff.mp (dropTrailing_ne_nil h)
  have hdrop : dropTrailing (front.toList ++ s.toList) = front.toList ++ dropTrailing s.toList := by
    simp [dropTrailing, List.dropWhile_append, hstop]
  rw [trimEnd, String.toList_append, hdrop, String.ofList_append, String.ofList_toList, trimEnd]

end Text

/-! ## The end of a plan -/

/-- The column that a plan ends in: on side `b` of the last relationship of its last step. -/
def JoinPlan.EndsIn (catalog : Catalog) (rs : List Relationship) (plan : JoinPlan)
    (column : Column) : Prop :=
  ∃ step r, plan.steps.getLast? = some step ∧
    (JoinPlan.attributed plan.order rs step.place).getLast? = some r ∧
    catalog.columns[r.b.column]? = some column

variable {catalog : Catalog} {rs : List Relationship} {order : List InstanceId} {step : JoinStep}
  {plan : JoinPlan} {column : Column}

theorem exists_getLast?_of_forall₂ {α β : Type} {R : α → β → Prop} {xs : List α} {ys : List β}
    (h : List.Forall₂ R xs ys) (hne : xs ≠ []) :
    ∃ x y, xs.getLast? = some x ∧ ys.getLast? = some y ∧ R x y := by
  induction h with
  | nil => exact absurd rfl hne
  | @cons x y xs ys hxy hrest ih =>
    cases hrest with
    | nil => exact ⟨x, y, rfl, rfl, hxy⟩
    | cons _ _ => simpa using ih (by simp)

theorem exists_intercalate_concat (separator : String) (init : List String) (last : String) :
    ∃ front, separator.intercalate (init ++ [last]) = front ++ last := by
  cases init with
  | nil => exact ⟨"", by simp⟩
  | cons first rest =>
    refine ⟨separator.intercalate (first :: rest) ++ separator, ?_⟩
    rw [String.intercalate_append_of_ne_nil (by simp) (by simp), String.intercalate_singleton]

/-- A step ends in the name on side `b` of the last relationship that belongs to it. -/
theorem JoinStep.Joins.exists_text_eq (h : step.Joins catalog rs order) :
    ∃ r column front, (JoinPlan.attributed order rs step.place).getLast? = some r ∧
      catalog.columns[r.b.column]? = some column ∧ step.text = front ++ column.name ++ " " := by
  obtain ⟨r, condition, hr, hlast, a, b, _, hb, rfl⟩ :=
    exists_getLast?_of_forall₂ h.conditions h.own
  obtain ⟨init, hinit⟩ := List.getLast?_eq_some_iff.mp hlast
  obtain ⟨front, hfront⟩ := exists_intercalate_concat " AND " init (a.name ++ " = " ++ b.name)
  refine ⟨r, b, step.kind.keyword ++ " JOIN " ++ step.table ++ " ON " ++ front ++ a.name ++ " = ",
    hr, hb, ?_⟩
  rw [JoinStep.text, hinit, hfront]
  simp only [String.append_assoc]

/-- A plan ends in the name of a column and one blank. -/
theorem JoinPlan.Joins.exists_source_eq (h : plan.Joins catalog rs) (hne : rs ≠ []) :
    ∃ column front, plan.EndsIn catalog rs column ∧ plan.source = front ++ column.name ++ " " := by
  obtain ⟨r, hr⟩ := List.exists_mem_of_ne_nil rs hne
  obtain ⟨step, ⟨hstep, _⟩, _⟩ := h.once r hr
  obtain ⟨init, last, hsteps⟩ : ∃ init last, plan.steps = init ++ [last] := by
    simpa using List.eq_nil_or_concat plan.steps |>.resolve_left (List.ne_nil_of_mem hstep)
  obtain ⟨q, column, front, hq, hcolumn, htext⟩ := (h.steps last (by simp [hsteps])).exists_text_eq
  refine ⟨column, plan.seed ++ " " ++ String.join (init.map JoinStep.text) ++ front,
    ⟨last, q, by simp [hsteps], hq, hcolumn⟩, ?_⟩
  rw [JoinPlan.source, hsteps, List.map_append, String.join_append, List.map_singleton,
    String.join_cons, String.join_nil, htext]
  simp only [String.append_assoc, String.append_empty]

/-! ## The clause -/

namespace Clauses

/-- A statement has a text behind FROM: the clause stands behind the SELECT clause and before the
others. -/
def HasSource (c : Clauses) (layout : Layout) (source : String) : Prop :=
  ∃ select behind, c.texts layout.composition = select :: ("FROM " ++ source) :: behind ∧
    c.sql layout = (if layout.pretty then "\n" else " ").intercalate
      (select :: ("FROM " ++ source) :: behind)

/-- What a statement has of the FROM text of a plan. The text ends in the name of a column and one
blank; `kept` is the name without the blanks `lost` that it ends in, and the statement ends the
clause there. -/
structure TrimsSource (catalog : Catalog) (rs : List Relationship) (plan : JoinPlan)
    (layout : Layout) (c : Clauses) (column : Column) (front kept lost : String) : Prop where
  endsIn : plan.EndsIn catalog rs column
  source : plan.source = front ++ column.name ++ " "
  name : column.name = kept ++ lost
  kept_ne : kept ≠ ""
  kept_end : Text.endsBlank kept = false
  lost_blank : ∀ ch ∈ lost.toList, Text.isBlank ch = true
  hasSource : c.HasSource layout (front ++ kept)

theorem hasSource_iff {c : Clauses} {layout : Layout} {source : String} :
    c.HasSource layout source ↔ source = Text.trimEnd c.source := by
  constructor
  · intro h
    obtain ⟨select, behind, htexts, _⟩ := h
    exact (String.append_right_inj "FROM ").mp (List.cons.inj (List.cons.inj htexts).2).1.symm
  · rintro rfl
    exact ⟨_, _, rfl, rfl⟩

theorem trimsSource_ofColumns (hc : catalog.Built) (h : plan.Joins catalog rs) (hne : rs ≠ [])
    (totals : Bool) (columns : List GridColumn) (layout : Layout) :
    ∃ column front, TrimsSource catalog rs plan layout (ofColumns totals columns plan.source) column
      front (Text.trimEnd column.name) (Text.trailing column.name) := by
  obtain ⟨column, front, hends, hsource⟩ := h.exists_source_eq hne
  have hname : Text.blank column.name = false := by
    obtain ⟨_, r, _, _, hcolumn⟩ := hends
    exact hc.not_blank hcolumn
  have htrim : Text.trimEnd plan.source = front ++ Text.trimEnd column.name := by
    rw [hsource, Text.trimEnd_append_blank, Text.trimEnd_append front hname]
  exact ⟨column, front, {
    endsIn := hends
    source := hsource
    name := (Text.trimEnd_append_trailing _).symm
    kept_ne := Text.trimEnd_ne_empty hname
    kept_end := Text.endsBlank_trimEnd _
    lost_blank := fun ch => Text.isBlank_of_mem_trailing
    hasSource := hasSource_iff.mpr htrim.symm }⟩

/-- **What a statement keeps of its plan.** Whatever columns are asked for and however it is laid
out, it has all of the FROM text but the blanks that the last name ends in and the one behind them.
So it has the text without its last blank just where that name does not end in blanks. -/
theorem hasSource_decided (edits : List GraphEdit) (hc : catalog.Built)
    (hp : (Graph.empty.after edits).plan? catalog = some (.ok plan)) (totals : Bool)
    (columns : List GridColumn) (layout : Layout) :
    ∃ clauses column front kept lost,
      compile? catalog totals columns (Graph.empty.after edits) = some (.ok clauses) ∧
      TrimsSource catalog (Graph.empty.after edits).relationships plan layout clauses column front
        kept lost ∧
      ((∀ text, plan.source = text ++ " " → clauses.HasSource layout text) ↔
        Text.endsBlank column.name = false) := by
  obtain ⟨hplannable, d, order, ho, halong⟩ :=
    plannable_of_plan? hc.owned (Graph.oriented_after edits) hp
  have hjoins := joins_of_planAlong hplannable ho halong
  obtain ⟨column, front, h⟩ :=
    trimsSource_ofColumns hc hjoins hplannable.ne_nil totals columns layout
  refine ⟨_, column, front, _, _, by rw [compile?_eq, hp]; rfl, h, ?_⟩
  have hwhole : ∀ text, plan.source = text ++ " " ↔ text = front ++ column.name := by
    intro text
    rw [h.source, String.append_left_inj, eq_comm]
  have htrim := hasSource_iff.mp h.hasSource
  simp only [hwhole, forall_eq]
  calc (ofColumns totals columns plan.source).HasSource layout (front ++ column.name)
    _ ↔ front ++ column.name = front ++ Text.trimEnd column.name := htrim ▸ hasSource_iff
    _ ↔ column.name = Text.trimEnd column.name := String.append_right_inj front
    _ ↔ Text.endsBlank column.name = false := eq_comm.trans Text.trimEnd_eq_self_iff

/-- Customers, and orders with a column whose name ends in a blank. -/
def padded : Catalog where
  schemas := #[⟨"shop", [0, 1]⟩]
  tables := #[⟨"customers", 0, [0]⟩, ⟨"orders", 0, [1]⟩]
  columns := #[⟨"id", true, 0⟩, ⟨"customer ", false, 1⟩]

theorem built_padded : padded.Built :=
  .inr ⟨.object [("shop", .object [
    ("customers", .list [.list [.text "id", .boolean true]]),
    ("orders", .list [.list [.text "customer ", .boolean false]])])], rfl⟩

def paddedOrders : List GraphEdit := [.add ⟨0, 0, 0⟩ ⟨1, 1, 1⟩ .inner]

/-- Of the two blanks behind the last name one belongs to the name, and both are gone. -/
theorem hasSource_decided_padded : padded.Built ∧ ∃ plan clauses,
    (Graph.empty.after paddedOrders).plan? padded = some (.ok plan) ∧
    compile? padded false [] (Graph.empty.after paddedOrders) = some (.ok clauses) ∧
    plan.source = "customers INNER JOIN orders ON id = customer  " ∧
    clauses.sql .standard = "SELECT * FROM customers INNER JOIN orders ON id = customer" ∧
    ¬ ∀ text, plan.source = text ++ " " → clauses.HasSource .standard text := by
  obtain ⟨clauses, column, _, _, _, hclauses, htrims, hwhole⟩ :=
    hasSource_decided paddedOrders built_padded rfl false [] .standard
  obtain ⟨step, r, hstep, hr, hcolumn⟩ := htrims.endsIn
  cases hclauses
  cases hstep
  cases hr
  cases hcolumn
  exact ⟨built_padded, _, _, rfl, rfl, by decide, by decide, fun h => by cases hwhole.mp h⟩

/-- A statement need not keep all of the FROM text in front of its last blank. -/
theorem not_whole_source : ¬ ∀ (edits : List GraphEdit) (catalog : Catalog), catalog.Built →
    ∀ plan, (Graph.empty.after edits).plan? catalog = some (.ok plan) →
      ∀ totals columns layout clauses,
        compile? catalog totals columns (Graph.empty.after edits) = some (.ok clauses) →
          ∀ text, plan.source = text ++ " " → clauses.HasSource layout text := by
  intro h
  have hwhole := h paddedOrders padded built_padded _ rfl false [] .standard _ rfl
    "customers INNER JOIN orders ON id = customer " (by decide)
  exact absurd (hasSource_iff.mp hwhole) (by decide)

end Clauses

end VisualQuery
