import VisualQuery.Canvas.Basic
import VisualQuery.Proofs.Join.Renumbering
import VisualQuery.Proofs.Traversal

/-! # Canvases under other numbers

A catalog may hold the same under other numbers (`Catalog.Renumbers`): then names find the same
tables and columns there, and numbers the same names. What is looked up on a canvas or drawn on it
is then the same as well, up to the numbers (`Canvas.Renumbers`), and so is what is refused. -/

namespace VisualQuery

variable {n : Renumbering}

/-! ## Catalogs -/

/-- The second catalog holds under the other numbers what the first one holds. -/
structure Catalog.Renumbers (n : Renumbering) (c c' : Catalog) : Prop where
  injective : Function.Injective n.table
  names : ∀ t, c'.tables[n.table t]?.map (·.name) = c.tables[t]?.map (·.name)
  fullName? : ∀ t, c'.fullName? (n.table t) = c.fullName? t
  columnsOf? : ∀ t, c'.columnsOf? (n.table t) = (c.columnsOf? t).map (·.map n.column)
  columns : ∀ k, c'.columns[n.column k]? =
    c.columns[k]?.map fun column => { column with table := n.table column.table }
  findTable? : ∀ schema name, c'.findTable? schema name = (c.findTable? schema name).map n.table

namespace Catalog.Renumbers
variable {c c' : Catalog}

theorem refl (ht : n.table = id) (hk : n.column = id) (c : Catalog) : c.Renumbers n c := by
  refine ⟨ht ▸ Function.injective_id, ?_, ?_, ?_, ?_, ?_⟩ <;> simp [ht, hk]

theorem findColumn? (h : c.Renumbers n c') (t : TableId) (name : String) :
    c'.findColumn? (n.table t) name = (c.findColumn? t name).map (·.map n.column) := by
  unfold Catalog.findColumn?
  rw [h.columnsOf?]
  cases c.columnsOf? t <;> simp [List.find?_map, h.columns, Option.any_map]

theorem path? (h : c.Renumbers n c') (k : ColumnId) : c'.path? (n.column k) = c.path? k := by
  unfold Catalog.path?
  rw [h.columns]
  cases c.columns[k]? with
  | none => rfl
  | some column => simp [h.fullName?]

theorem carried (h : c.Renumbers n c') (e : Endpoint) : e.Carried n c c' where
  resolves := by
    simp only [Endpoint.resolves, Endpoint.renumber, h.columns]
    cases c.columns[e.column]? <;> simp [h.injective.eq_iff]
  table := h.names e.table
  column := by
    rw [h.columns]
    cases c.columns[e.column]? <;> rfl

end Catalog.Renumbers

/-! ## Placements and endpoints -/

def Placement.renumber (n : Renumbering) (p : Placement) : Placement :=
  ⟨n.place p.place, n.table p.table⟩

def CanvasError.renumber (n : Renumbering) : CanvasError → CanvasError
  | .unknownInstance i => .unknownInstance (n.place i)
  | .unknownColumn table column => .unknownColumn table column
  | .graph cause => .graph (cause.renumber n)

/-- The second canvas shows under the other numbers what the first one shows, and maybe more. -/
structure Canvas.Renumbers (n : Renumbering) (c c' : Canvas) : Prop where
  catalog : c.catalog.Renumbers n c'.catalog
  placement : ∀ i,
    c'.placement (n.place i) = mapBoth (·.renumber n) (·.renumber n) (c.placement i)
  graph : c'.graph = c.graph.renumber n

namespace Canvas.Renumbers
variable {c c' : Canvas}

theorem endpoint (h : c.Renumbers n c') (i : InstanceId) (column : String) :
    c'.endpoint (n.place i) column =
      (c.endpoint i column).map (mapBoth (·.renumber n) (·.renumber n)) := by
  unfold Canvas.endpoint
  rw [h.placement]
  cases c.placement i with
  | error cause => rfl
  | ok p =>
    simp only [mapBoth, Placement.renumber, h.catalog.findColumn?, h.catalog.fullName?]
    cases c.catalog.findColumn? p.table column with
    | none => rfl
    | some found =>
      cases found with
      | some k => rfl
      | none => cases c.catalog.fullName? p.table <;> rfl

theorem sides (h : c.Renumbers n c') (a b : InstanceId × String) :
    c'.sides (n.place a.1, a.2) (n.place b.1, b.2) =
      (c.sides a b).map (mapBoth (·.renumber n) (.map (·.renumber n) (·.renumber n))) := by
  unfold Canvas.sides
  rw [h.endpoint, h.endpoint]
  cases c.endpoint a.1 a.2 with
  | none => rfl
  | some x =>
    cases x with
    | error cause => rfl
    | ok x =>
      cases c.endpoint b.1 b.2 with
      | none => rfl
      | some y => cases y <;> rfl

/-- Relationships are drawn alike, under the same number. -/
theorem connect (hp : StrictMono n.place) (hr : n.relationship = id) (h : c.Renumbers n c')
    (a b : InstanceId × String) (kind : JoinKind) :
    (c'.connect (n.place a.1, a.2) (n.place b.1, b.2) kind).1 =
        (c.connect a b kind).1.map (mapBoth (·.renumber n) id) ∧
      (c.connect a b kind).2.Renumbers n
        (c'.connect (n.place a.1, a.2) (n.place b.1, b.2) kind).2 := by
  unfold Canvas.connect
  rw [h.sides]
  cases c.sides a b with
  | none => exact ⟨rfl, h⟩
  | some found =>
    cases found with
    | error cause => exact ⟨rfl, h⟩
    | ok ends =>
      have hadd := Graph.add_renumber (g := c.graph) hp hr ends.1 ends.2 kind
      simp only [Option.map_some, mapBoth, Prod.map_fst, Prod.map_snd, h.graph, hadd]
      cases c.graph.add ends.1 ends.2 kind with
      | mk answer graph =>
        cases answer with
        | error cause => exact ⟨rfl, h.catalog, h.placement, rfl⟩
        | ok id => exact ⟨rfl, h.catalog, h.placement, rfl⟩

theorem plan? (hp : Function.Injective n.place) (h : c.Renumbers n c') :
    c'.graph.plan? c'.catalog =
      (c.graph.plan? c.catalog).map (mapBoth (·.renumber n) (·.renumber n)) := by
  rw [h.graph]
  exact plan?_renumber c.graph hp fun e _ => h.catalog.carried e

end Canvas.Renumbers

end VisualQuery
