import VisualQuery.Proofs.Answering
import VisualQuery.Proofs.Canvas.Renumbering
import VisualQuery.Proofs.Document.Loading

/-! # Documents under other numbers

A document refers to its tables by position. Where the references are renumbered and the tables
found at the new positions are those found before under their other numbers, loading gives the same
query under other numbers, or the same refusal (`load_renumber`), and the clauses of the query are
the same texts (`Query.Renumbers.compile?`). -/

namespace VisualQuery

variable {n : Renumbering}

/-! ## References -/

def SavedColumn.renumber (n : Renumbering) (s : SavedColumn) : SavedColumn :=
  { s with position := n.place s.position }

def SavedRelationship.renumber (n : Renumbering) (r : SavedRelationship) : SavedRelationship :=
  { r with a := r.a.renumber n, b := r.b.renumber n }

def SavedGridColumn.renumber (n : Renumbering) (s : SavedGridColumn) : SavedGridColumn :=
  { s with source := s.source.renumber n }

def Document.refer (n : Renumbering) (tables : List SavedTable) (d : Document) : Document :=
  { d with tables := tables
           relationships := d.relationships.map (·.renumber n)
           columns := d.columns.map (·.renumber n) }

def DocumentError.renumber (n : Renumbering) : DocumentError → DocumentError
  | .unknownPlacement position => .unknownPlacement (n.place position)
  | .canvas cause => .canvas (cause.renumber n)
  | e => e

/-! ## Grid columns and queries -/

def GridColumn.renumber (n : Renumbering) (g : GridColumn) : GridColumn :=
  { g with source := g.source.map (·.renumber n) }

/-- What a grid column adds to the clauses names no number. -/
theorem GridColumn.contribution_renumber (totals : Bool) (g : GridColumn) :
    (g.renumber n).contribution totals = g.contribution totals := rfl

theorem GridColumn.picked?_renumber {c c' : Catalog} (h : c.Renumbers n c') (e : Endpoint) :
    GridColumn.picked? c' (e.renumber n) = (GridColumn.picked? c e).map (·.renumber n) := by
  unfold GridColumn.picked?
  rw [show (e.renumber n).column = n.column e.column from rfl, h.path?]
  cases c.path? e.column <;> rfl

/-- The second query asks under the other numbers what the first one asks. -/
structure Query.Renumbers (n : Renumbering) (q q' : Query) : Prop where
  canvas : q.canvas.Renumbers n q'.canvas
  columns : q'.columns = q.columns.map (·.renumber n)
  totals : q'.totals = q.totals

/-- **Clauses name no number**: only errors are told under the other numbers. -/
theorem Query.Renumbers.compile? {q q' : Query} (hp : Function.Injective n.place)
    (h : q.Renumbers n q') :
    q'.compile? = q.compile?.map (mapBoth (·.renumber n) id) := by
  have hcolumns : ∀ totals source, Clauses.ofColumns totals q'.columns source =
      Clauses.ofColumns totals q.columns source := by
    intro totals source
    simp [Clauses.ofColumns, h.columns, Function.comp_def, GridColumn.contribution_renumber]
  rw [Query.compile?, Query.compile?, Clauses.compile?_eq, Clauses.compile?_eq, h.canvas.plan? hp,
    h.totals, Option.map_map, Option.map_map]
  refine congrArg (Option.map · _) (funext fun answer => ?_)
  cases answer with
  | error e => rfl
  | ok plan => simp [mapBoth, hcolumns, source_renumber]

namespace Document

/-! ## Loading -/

section Steps
variable {c c' : Canvas} {m m' : Nat}

theorem instanceAt_renumber (hm : ∀ k, n.place k < m' ↔ k < m) (position : Nat) :
    instanceAt (List.range m') (n.place position) =
      mapBoth (·.renumber n) n.place (instanceAt (List.range m) position) := by
  unfold instanceAt
  by_cases h : position < m
  · rw [List.getElem?_range h, List.getElem?_range ((hm position).mpr h)]
    rfl
  · have h' : ¬ n.place position < m' := mt (hm position).mp h
    rw [List.getElem?_eq_none (by simpa using h'), List.getElem?_eq_none (by simpa using h)]
    rfl

/-- What the other canvas answers under other numbers, a document goes on with under them. -/
theorem mirrored_onCanvas {α β : Type} (f : α → β) (x : Option (Except CanvasError α)) :
    MirroredRun (·.renumber n) (fun a b => f a = b) (onCanvas x)
      (onCanvas (x.map (mapBoth (·.renumber n) f))) := by
  rcases x with _ | cause | a
  · exact .none
  · exact .some (.error (DocumentError.canvas cause))
  · exact .some (.ok rfl)

theorem drawRelationship_renumber (hp : StrictMono n.place) (hr : n.relationship = id)
    (hm : ∀ k, n.place k < m' ↔ k < m) (kind : JoinKind) (h : c.Renumbers n c')
    (r : SavedRelationship) :
    MirroredRun (·.renumber n) (Canvas.Renumbers n) (drawRelationship (List.range m) kind c r)
      (drawRelationship (List.range m') kind c' (r.renumber n)) := by
  unfold drawRelationship
  simp only [SavedRelationship.renumber, SavedColumn.renumber, instanceAt_renumber hm]
  refine (MirroredRun.lift (.mapBoth _)).bind fun a _ ha => ?_
  refine (MirroredRun.lift (.mapBoth _)).bind fun b _ hb => ?_
  subst ha hb
  obtain ⟨hanswer, hcanvas⟩ := h.connect hp hr (a, r.a.column) (b, r.b.column) (r.kind.getD kind)
  rw [hanswer]
  exact (mirrored_onCanvas id _).bind fun _ _ _ => .some (.ok hcanvas)

theorem pickColumn_renumber (hm : ∀ k, n.place k < m' ↔ k < m) (h : c.Renumbers n c')
    (s : SavedGridColumn) :
    MirroredRun (·.renumber n) (fun g g' => g.renumber n = g') (pickColumn (List.range m) c s)
      (pickColumn (List.range m') c' (s.renumber n)) := by
  unfold pickColumn
  simp only [SavedGridColumn.renumber, SavedColumn.renumber, instanceAt_renumber hm]
  refine (MirroredRun.lift (.mapBoth _)).bind fun i _ hi => ?_
  subst hi
  rw [h.endpoint]
  refine (mirrored_onCanvas _ (c.endpoint i s.source.column)).bind fun e _ he => ?_
  subst he
  rw [GridColumn.picked?_renumber h.catalog]
  cases GridColumn.picked? c.catalog e with
  | none => exact .none
  | some picked => exact .some (.ok rfl)

end Steps

/-- **Loading sees no numbers**: where the same tables are found at the new positions, the same
query is loaded under other numbers, or the document is refused alike. -/
theorem load_renumber {catalog catalog' : Catalog} {tables : List SavedTable}
    (hp : StrictMono n.place) (hr : n.relationship = id) (hc : catalog.Renumbers n catalog')
    (d : Document) (defaults : Defaults)
    (ht : Mirrors (·.renumber n) (fun ts ts' => ∀ k : Nat, ts'[n.place k]? = ts[k]?.map n.table)
      (d.tables.mapM (tableOf catalog)) (tables.mapM (tableOf catalog'))) :
    Option.Rel (Mirrors (·.renumber n) (Query.Renumbers n)) (d.load? catalog defaults)
      ((d.refer n tables).load? catalog' defaults) := by
  rw [load?_eq, load?_eq]
  refine (MirroredRun.lift ht).bind fun ts ts' hts => ?_
  -- references to positions without a table stay such references
  have hm : ∀ k, n.place k < ts'.length ↔ k < ts.length := by
    intro k
    have hnone : ts'[n.place k]? = none ↔ ts[k]? = none := by rw [hts, Option.map_eq_none_iff]
    rw [List.getElem?_eq_none_iff, List.getElem?_eq_none_iff] at hnone
    exact not_iff_not.mp (by simpa only [Nat.not_lt] using hnone)
  have hplaced : ((Canvas.blank catalog).placeAll ts).Renumbers n
      ((Canvas.blank catalog').placeAll ts') := by
    refine ⟨?_, fun i => ?_, ?_⟩
    · rw [Canvas.catalog_placeAll, Canvas.catalog_placeAll]
      exact hc
    · rw [Canvas.placement_placeAll_blank, Canvas.placement_placeAll_blank, hts]
      cases ts[i]? <;> rfl
    · rw [Canvas.graph_placeAll, Canvas.graph_placeAll]
      simp [Canvas.blank, Graph.empty, Graph.renumber, hr]
  have hdraw := MirroredRun.foldlM (fun _ _ r h =>
    drawRelationship_renumber hp hr hm defaults.joinKind h r) d.relationships hplaced
  refine hdraw.bind fun c c' hcanvas => ?_
  have hpick := MirroredRun.mapM (pickColumn_renumber hm hcanvas) d.columns
  exact hpick.bind fun gs gs' hgs => .some (.ok ⟨hcanvas, eq_map_of_forall₂ hgs, rfl⟩)

end Document

end VisualQuery
