import VisualQuery.Canvas.Edit
import VisualQuery.Proofs.Catalog.Ownership
import VisualQuery.Proofs.Join.Editing

/-! # What an edit can do to a canvas

Every edit of a canvas does one of five things (`moves_next`). Removing a placement works column by
column and clears the graph of all endpoints at once (`foldl_removeTouching`); connecting draws
between endpoints of which each stands on a placement and on a column of its table
(`anchors_of_endpoint`). An edit that stops short of an answer leaves a canvas too: nothing was
drawn to the columns of a table that is not there, so that a removal stopped there has done all that
there was to do (`remove_of_placement`). -/

namespace VisualQuery

/-- A graph without the relationships that touch one of the endpoints. -/
def Graph.clear (g : Graph) (es : List Endpoint) : Graph :=
  { g with relationships := g.relationships.filter fun r => !es.any r.touches }

theorem Relationship.any_touches_iff {r : Relationship} {es : List Endpoint} :
    es.any r.touches = true ↔ r.a ∈ es ∨ r.b ∈ es := by
  simp [List.any_eq_true, Relationship.touches, and_or_left, exists_or]

theorem Graph.foldl_removeTouching (es : List Endpoint) :
    ∀ g : Graph, es.foldl Graph.removeTouching g = g.clear es := by
  induction es with
  | nil =>
    intro g
    simp [Graph.clear]
  | cons e rest ih =>
    intro g
    rw [List.foldl_cons, ih]
    simp [Graph.clear, Graph.removeTouching, List.filter_filter, Bool.and_comm]

namespace Canvas

variable {c : Canvas} {i : InstanceId} {p : Placement} {e : Endpoint}

def endpointsOf (c : Canvas) (p : Placement) : List Endpoint :=
  (c.catalog.columnsIn p.table).map fun column => ⟨p.place, p.table, column⟩

/-- A canvas without a placement and without what was drawn to its columns. -/
def without (c : Canvas) (p : Placement) : Canvas :=
  { c with placements := c.placements.eraseP (·.place = p.place)
           graph := c.graph.clear (c.endpointsOf p) }

/-- An endpoint on a placement, at a column of the table that is placed. -/
def Anchors (c : Canvas) (e : Endpoint) : Prop :=
  (⟨e.place, e.table⟩ : Placement) ∈ c.placements ∧ c.catalog.ListsColumn e.table e.column

theorem placement_eq_ok_iff :
    c.placement i = .ok p ↔ c.placements.find? (·.place = i) = some p := by
  unfold placement
  cases c.placements.find? (·.place = i) <;> simp

theorem mem_of_placement (h : c.placement i = .ok p) : p ∈ c.placements ∧ p.place = i := by
  rw [placement_eq_ok_iff] at h
  exact ⟨List.mem_of_find?_eq_some h, by simpa using List.find?_some h⟩

theorem remove_of_unknown {cause : CanvasError} (h : c.placement i = .error cause) :
    c.remove i = (some (.error cause), c) := by
  unfold remove
  rw [h]

/-- A placement is taken out in any case; whether there is an answer depends on its table. -/
theorem remove_of_placement (hp : c.placement i = .ok p) :
    c.remove i = (c.catalog.tables[p.table]?.map fun _ => .ok p, c.without p) := by
  obtain ⟨_, rfl⟩ := mem_of_placement hp
  unfold remove without endpointsOf
  simp only [hp, Catalog.columnsOf?_eq]
  rw [← Graph.foldl_removeTouching, List.foldl_map]
  cases htable : c.catalog.tables[p.table]? with
  | none =>
    rw [Catalog.columnsIn_of_none htable]
    rfl
  | some table => rfl

/-- An endpoint is found in the table of its placement, at the column of a name. -/
theorem found_of_endpoint {name : String} (h : c.endpoint i name = some (.ok e)) :
    ∃ p, c.placement i = .ok p ∧ e.place = i ∧ e.table = p.table ∧
      c.catalog.findColumn? p.table name = some (some e.column) := by
  unfold endpoint at h
  split at h
  · cases h
  · next p hp =>
    obtain ⟨found, hfound, h⟩ := Option.bind_eq_some_iff.mp h
    cases found with
    | none => obtain ⟨_, _, h⟩ := Option.bind_eq_some_iff.mp h; cases h
    | some column =>
      cases h
      exact ⟨p, hp, rfl, rfl, hfound⟩

theorem anchors_of_endpoint {name : String} (h : c.endpoint i name = some (.ok e)) :
    c.Anchors e := by
  obtain ⟨p, hp, hplace, htable, hfound⟩ := found_of_endpoint h
  obtain ⟨hmem, hi⟩ := mem_of_placement hp
  unfold Anchors
  rw [hplace, htable, ← hi]
  exact ⟨hmem, Catalog.listsColumn_of_findColumn? hfound⟩

theorem sides_eq_ok_iff {a b : InstanceId × String} {x y : Endpoint} :
    c.sides a b = some (.ok (x, y)) ↔
      c.endpoint a.1 a.2 = some (.ok x) ∧ c.endpoint b.1 b.2 = some (.ok y) := by
  unfold sides
  cases c.endpoint a.1 a.2 with
  | none => simp
  | some first =>
    cases first with
    | error cause => simp
    | ok first =>
      cases c.endpoint b.1 b.2 with
      | none => simp
      | some second => cases second <;> simp

theorem exists_of_connect {a b : InstanceId × String} {kind : JoinKind} {id : RelationshipId}
    (h : (c.connect a b kind).1 = some (.ok id)) :
    ∃ x y g, c.endpoint a.1 a.2 = some (.ok x) ∧ c.endpoint b.1 b.2 = some (.ok y) ∧
      c.graph.add x y kind = (.ok id, g) ∧ (c.connect a b kind).2 = { c with graph := g } := by
  unfold connect at h ⊢
  split at h
  · cases h
  · cases h
  · next x y hends =>
    obtain ⟨hx, hy⟩ := sides_eq_ok_iff.mp hends
    split at h
    · next drawn g hadd =>
      cases h
      exact ⟨x, y, g, hx, hy, hadd, rfl⟩
    · cases h

inductive Moves (c : Canvas) : CanvasEdit → Canvas → Prop where
  /-- It is refused, or stops before it has done anything. -/
  | kept (e : CanvasEdit) : Moves c e c
  | placed (table : TableId) : Moves c (.place table) (c.place table).2
  | removed {i : InstanceId} {p : Placement} (hp : c.placement i = .ok p) :
    Moves c (.remove i) (c.without p)
  | connected {a b : InstanceId × String} {x y : Endpoint} (kind : JoinKind)
    (ha : c.endpoint a.1 a.2 = some (.ok x)) (hb : c.endpoint b.1 b.2 = some (.ok y)) :
    Moves c (.connect a b kind) { c with graph := c.graph.next (.add x y kind) }
  | edited (e : GraphEdit) : Moves c (.graph e) { c with graph := c.graph.next e }

theorem next_remove (hp : c.placement i = .ok p) : c.next (.remove i) = c.without p := by
  simp [next, edit, remove_of_placement hp]

theorem next_connect {a b : InstanceId × String} {x y : Endpoint} (kind : JoinKind)
    (h : c.sides a b = some (.ok (x, y))) :
    c.next (.connect a b kind) = { c with graph := c.graph.next (.add x y kind) } := by
  simp only [next, edit, connect, h, Graph.next, Graph.edit]
  cases c.graph.add x y kind with
  | mk answer g => cases answer <;> rfl

theorem next_graph (c : Canvas) (e : GraphEdit) :
    c.next (.graph e) = { c with graph := c.graph.next e } := by
  simp only [next, edit, Graph.next]
  cases c.graph.edit e with
  | mk answer g => cases answer <;> rfl

/-- **Every edit moves the canvas** in one of five ways. -/
theorem moves_next (c : Canvas) (e : CanvasEdit) : Moves c e (c.next e) := by
  cases e with
  | place table => exact .placed table
  | remove i =>
    cases hp : c.placement i with
    | error cause =>
      have hkept : c.next (.remove i) = c := by simp [next, edit, remove_of_unknown hp]
      rw [hkept]
      exact .kept _
    | ok p =>
      rw [next_remove hp]
      exact .removed hp
  | connect a b kind =>
    cases hends : c.sides a b with
    | none =>
      have hkept : c.next (.connect a b kind) = c := by simp [next, edit, connect, hends]
      rw [hkept]
      exact .kept _
    | some ends =>
      cases ends with
      | error cause =>
        have hkept : c.next (.connect a b kind) = c := by simp [next, edit, connect, hends]
        rw [hkept]
        exact .kept _
      | ok ends =>
        obtain ⟨ha, hb⟩ := sides_eq_ok_iff.mp hends
        rw [next_connect kind hends]
        exact .connected kind ha hb
  | graph e =>
    rw [next_graph]
    exact .edited e

end Canvas

end VisualQuery
