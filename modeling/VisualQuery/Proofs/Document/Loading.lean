import VisualQuery.Canvas.Edit
import VisualQuery.Document.Query
import VisualQuery.Proofs.Answering
import VisualQuery.Proofs.Canvas.Planning
import VisualQuery.Proofs.Statement.Clauses

/-! # What loading a document does

Placing looks up every table of a document and puts the found ones on the canvas, so that position
`k` of the document is instance `k` (`load?_eq`, `placement_placeAll_blank`). Drawing then only
connects. So a canvas that was loaded is behind a run of checked edits (`reached_of_load`), and its
query always has an answer (`exists_answer_of_load`). -/

namespace VisualQuery

def Canvas.placeAll (c : Canvas) (tables : List TableId) : Canvas :=
  tables.foldl (fun c table => (c.place table).2) c

namespace Canvas

theorem catalog_placeAll (tables : List TableId) :
    ∀ c : Canvas, (c.placeAll tables).catalog = c.catalog := by
  induction tables with
  | nil => exact fun _ => rfl
  | cons table rest ih => exact fun c => ih (c.place table).2

theorem graph_placeAll (tables : List TableId) :
    ∀ c : Canvas, (c.placeAll tables).graph = c.graph := by
  induction tables with
  | nil => exact fun _ => rfl
  | cons table rest ih => exact fun c => ih (c.place table).2

/-- Tables are placed in order, under consecutive numbers. -/
theorem placements_placeAll (tables : List TableId) : ∀ c : Canvas,
    (c.placeAll tables).placements =
      c.placements ++ tables.mapIdx fun k table => ⟨c.nextInstance + k, table⟩ := by
  induction tables with
  | nil => exact fun c => (List.append_nil _).symm
  | cons table rest ih =>
    intro c
    show ((c.place table).2.placeAll rest).placements = _
    rw [ih, List.mapIdx_cons]
    simp [place, Nat.add_assoc, Nat.add_comm 1]

theorem find?_placed (tables : List TableId) : ∀ start m : InstanceId,
    (tables.mapIdx fun k table => (⟨start + k, table⟩ : Placement)).find? (·.place = start + m) =
      tables[m]?.map fun table => ⟨start + m, table⟩ := by
  induction tables with
  | nil => exact fun _ _ => rfl
  | cons table rest ih =>
    intro start m
    rw [List.mapIdx_cons]
    cases m with
    | zero => simp
    | succ m =>
      have hrest := ih (start + 1) m
      simp only [Nat.add_assoc, Nat.add_comm 1] at hrest
      simpa using hrest

/-- On a canvas on which nothing else was done, instances go by position. -/
theorem placement_placeAll_blank (catalog : Catalog) (tables : List TableId) (i : InstanceId) :
    ((blank catalog).placeAll tables).placement i =
      match tables[i]? with
      | some table => .ok ⟨i, table⟩
      | none => .error (.unknownInstance i) := by
  have hfind := find?_placed tables 0 i
  simp only [Nat.zero_add] at hfind
  unfold placement
  rw [placements_placeAll]
  simp only [blank, List.nil_append, Nat.zero_add, hfind]
  cases tables[i]? <;> rfl

def Reached (catalog : Catalog) (c : Canvas) : Prop :=
  ∃ edits, (∀ e ∈ edits, e.Checked) ∧ c = (blank catalog).after edits

theorem Reached.next {catalog : Catalog} {c : Canvas} {e : CanvasEdit} (h : c.Reached catalog)
    (he : e.Checked) : (c.next e).Reached catalog := by
  obtain ⟨edits, hchecked, rfl⟩ := h
  refine ⟨edits ++ [e], fun x hx => ?_, (after_append _ edits [e]).symm⟩
  rcases List.mem_append.mp hx with hx | hx
  · exact hchecked x hx
  · rwa [List.mem_singleton.mp hx]

section Reached
variable {catalog : Catalog} {c : Canvas}

theorem Reached.catalog_eq (h : c.Reached catalog) : c.catalog = catalog := by
  obtain ⟨edits, _, rfl⟩ := h
  exact catalog_after edits (blank catalog)

theorem Reached.anchored (h : c.Reached catalog) : Anchored c := by
  obtain ⟨edits, hchecked, rfl⟩ := h
  exact (anchored_blank catalog).after edits hchecked

theorem Reached.oriented (h : c.Reached catalog) :
    ∀ r ∈ c.graph.relationships, r.a.place < r.b.place := by
  obtain ⟨edits, _, rfl⟩ := h
  exact oriented_after edits

end Reached

theorem reached_placeAll (catalog : Catalog) (tables : List TableId) :
    ((blank catalog).placeAll tables).Reached catalog := by
  refine ⟨tables.map .place, fun e he => ?_, ?_⟩
  · obtain ⟨table, _, rfl⟩ := List.mem_map.mp he
    exact fun _ _ _ hne => by cases hne
  · rw [after, List.foldl_map]
    rfl

end Canvas

namespace Document
variable {catalog : Catalog} {defaults : Defaults} {d : Document} {q : Query}

def tableOf (catalog : Catalog) (t : SavedTable) : Except DocumentError TableId :=
  match catalog.findTable? t.schema t.table with
  | some table => .ok table
  | none => .error (.unknownTable t.schema t.table)

theorem placeTables_eq (ts : List SavedTable) : ∀ canvas : Canvas,
    placeTables canvas ts = (do
      let tables ← ts.mapM (tableOf canvas.catalog)
      pure (canvas.placeAll tables, List.range' canvas.nextInstance tables.length)) := by
  induction ts with
  | nil => exact fun _ => rfl
  | cons t rest ih =>
    intro canvas
    rw [List.mapM_cons]
    unfold placeTables tableOf
    cases canvas.catalog.findTable? t.schema t.table with
    | none => rfl
    | some table =>
      have hrest := ih (canvas.place table).2
      simp only [hrest]
      show (rest.mapM (tableOf canvas.catalog) >>= _) >>= _ =
        (rest.mapM (tableOf canvas.catalog) >>= _) >>= _
      cases rest.mapM (tableOf canvas.catalog) <;> rfl

/-- **Loading**: look up all tables, then draw all relationships, then pick all columns. Position
`k` of the document is instance `k`. -/
theorem load?_eq (d : Document) (catalog : Catalog) (defaults : Defaults) :
    d.load? catalog defaults = ExceptT.run (do
      let tables ← liftM (d.tables.mapM (tableOf catalog))
      let placed := List.range tables.length
      let canvas ← d.relationships.foldlM (drawRelationship placed defaults.joinKind)
        ((Canvas.blank catalog).placeAll tables)
      let columns ← d.columns.mapM (pickColumn placed canvas)
      pure ⟨canvas, columns, d.totals.getD defaults.totals⟩) := by
  unfold load?
  rw [placeTables_eq]
  simp only [Canvas.blank, List.range_eq_range']
  cases d.tables.mapM (tableOf catalog) <;> rfl

/-- What was found and drawn of a document that was loaded. -/
theorem exists_of_load (h : d.load? catalog defaults = some (.ok q)) :
    ∃ tables, d.tables.mapM (tableOf catalog) = .ok tables ∧
      (d.relationships.foldlM (drawRelationship (List.range tables.length) defaults.joinKind)
        ((Canvas.blank catalog).placeAll tables)).run = some (.ok q.canvas) ∧
      (d.columns.mapM (pickColumn (List.range tables.length) q.canvas)).run =
        some (.ok q.columns) ∧
      q.totals = d.totals.getD defaults.totals := by
  rw [load?_eq] at h
  obtain ⟨tables, htables, h⟩ := run_bind_eq_ok_iff.mp h
  obtain ⟨canvas, hcanvas, h⟩ := run_bind_eq_ok_iff.mp h
  obtain ⟨columns, hcolumns, h⟩ := run_bind_eq_ok_iff.mp h
  cases h
  exact ⟨tables, Option.some.inj htables, hcanvas, hcolumns, rfl⟩

/-! ## A loaded canvas -/

theorem next_of_draw {placed : List InstanceId} {kind : JoinKind} {canvas canvas' : Canvas}
    {r : SavedRelationship}
    (h : (drawRelationship placed kind canvas r).run = some (.ok canvas')) :
    ∃ a b, canvas' = canvas.next (.connect a b (r.kind.getD kind)) := by
  obtain ⟨a, _, h⟩ := run_bind_eq_ok_iff.mp h
  obtain ⟨b, _, h⟩ := run_bind_eq_ok_iff.mp h
  obtain ⟨_, _, h⟩ := run_bind_eq_ok_iff.mp h
  cases h
  exact ⟨(a, r.a.column), (b, r.b.column), rfl⟩

theorem reached_of_load (h : d.load? catalog defaults = some (.ok q)) :
    q.canvas.Reached catalog := by
  obtain ⟨tables, _, hcanvas, _⟩ := exists_of_load h
  refine run_foldlM_done (P := fun _ c => c.Reached catalog) (fun _ c r c' hc hdraw => ?_) _ []
    (Canvas.reached_placeAll catalog tables) hcanvas
  obtain ⟨a, b, rfl⟩ := next_of_draw hdraw
  exact hc.next fun _ _ _ he => by cases he

/-- **A loaded query has an answer**, over every catalog that was read, with totals or without. -/
theorem exists_answer_of_load (hc : catalog.Built) (h : d.load? catalog defaults = some (.ok q))
    (totals : Bool) : ∃ answer, { q with totals := totals }.compile? = some answer := by
  have hreached := reached_of_load h
  have howned : q.canvas.catalog.Owned := hreached.catalog_eq ▸ hc.owned
  obtain ⟨planned, hplan, _⟩ := hreached.anchored.exists_answer howned hreached.oriented
  exact ⟨_, by rw [Query.compile?, Clauses.compile?_eq, hplan, Option.map_some]⟩

end Document

end VisualQuery
