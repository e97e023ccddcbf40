import VisualQuery.Proofs.Catalog.Naming
import VisualQuery.Proofs.Document.Loading

/-! # What becomes of a document

A document that can be loaded is on the canvas entry by entry: its tables are the instances of
their positions, its relationships are drawn in order with the smaller position on side `a`, and
its grid columns are picked in order (`Loads`). So what compiling answers can be read off the
document: it depends on its relationships alone, and on nothing but the positions that they relate
(`load_decided`). -/

namespace VisualQuery

open Relation

/-! ## Names that were found -/

/-- A column that is found goes by the names of schema, table and column. -/
theorem Catalog.path?_of_found {c : Catalog} (ho : c.Owned) (hf : c.Filed)
    {schema table name : String} {t : TableId} {k : ColumnId}
    (ht : c.findTable? schema table = some t) (hk : c.findColumn? t name = some (some k)) :
    c.path? k = some (schema ++ "." ++ table ++ "." ++ name) := by
  obtain ⟨column, hcolumn, howner⟩ := ho.listsColumn_iff.mp (listsColumn_of_findColumn? hk)
  obtain ⟨ids, _, hk⟩ := Option.bind_eq_some_iff.mp hk
  have hname := List.find?_some (Option.some.inj hk)
  rw [hcolumn, Option.any_some, decide_eq_true_eq] at hname
  simp [path?, hcolumn, howner, hf.fullName?_of_findTable? ht, hname]

/-! ## Placements by position -/

theorem Canvas.places_placeAll_blank (c : Catalog) (tables : List TableId) :
    ((blank c).placeAll tables).placements.map (·.place) = List.range tables.length := by
  rw [placements_placeAll]
  exact List.ext_getElem (by simp [blank]) fun k _ _ => by simp [blank]

theorem Canvas.tables_placeAll_blank (c : Catalog) (tables : List TableId) :
    ((blank c).placeAll tables).placements.map (·.table) = tables := by
  rw [placements_placeAll]
  exact List.ext_getElem (by simp [blank]) fun k _ _ => by simp [blank]

namespace Document

/-! ## Entries and what stands for them -/

/-- An endpoint for a saved column: the instance is the position, the table is found by the names at
that position, and the column by its name in that table. -/
structure Denotes (d : Document) (catalog : Catalog) (s : SavedColumn) (e : Endpoint) : Prop where
  place : e.place = s.position
  table : ∃ t, d.tables[s.position]? = some t ∧
    catalog.findTable? t.schema t.table = some e.table
  column : catalog.findColumn? e.table s.column = some (some e.column)

/-- A relationship for an entry: between its two columns, the smaller position as side `a`. -/
structure Draws (d : Document) (catalog : Catalog) (defaultKind : JoinKind)
    (s : SavedRelationship) (r : Relationship) : Prop where
  kind : r.kind = s.kind.getD defaultKind
  sides : (s.a.position < s.b.position ∧ d.Denotes catalog s.a r.a ∧ d.Denotes catalog s.b r.b) ∨
    (s.b.position < s.a.position ∧ d.Denotes catalog s.b r.a ∧ d.Denotes catalog s.a r.b)

/-- A grid column for an entry: it goes by the names of schema, table and column and is grouped by,
unless the entry says otherwise. -/
structure Picks (d : Document) (catalog : Catalog) (s : SavedGridColumn) (g : GridColumn) :
    Prop where
  source : ∃ e, g.source = some e ∧ d.Denotes catalog s.source e
  displayName : ∃ t, d.tables[s.source.position]? = some t ∧
    g.displayName = s.name.getD (t.schema ++ "." ++ t.table ++ "." ++ s.source.column)
  aggregate : g.aggregate = s.aggregate.getD .groupBy
  sort : g.sort = s.sort
  visible : g.visible = s.visible
  criteria : g.criteria = s.criteria.filter fun v => !Text.blank v

/-- What a query is to the document it was loaded from. -/
structure Loads (d : Document) (c : Catalog) (defaults : Defaults) (q : Query) : Prop where
  catalog : q.canvas.catalog = c
  /-- Position `k` is instance `k`. -/
  places : q.canvas.placements.map (·.place) = List.range d.tables.length
  tables : List.Forall₂ (fun t p => c.findTable? t.schema t.table = some p.table)
    d.tables q.canvas.placements
  /-- Relationship `k` has the number `k`. -/
  ids : q.canvas.graph.relationships.map (·.id) = List.range d.relationships.length
  relationships : List.Forall₂ (d.Draws c defaults.joinKind) d.relationships
    q.canvas.graph.relationships
  columns : List.Forall₂ (d.Picks c) d.columns q.columns
  totals : q.totals = d.totals.getD defaults.totals

variable {d : Document} {c : Catalog} {canvas canvas' : Canvas} {defaults : Defaults} {q : Query}

/-! ## Tables -/

structure Placed (d : Document) (c : Catalog) (canvas : Canvas) : Prop where
  catalog : canvas.catalog = c
  placement : ∀ i p, canvas.placement i = .ok p →
    ∃ t, d.tables[i]? = some t ∧ c.findTable? t.schema t.table = some p.table

theorem findTable?_of_tableOf {t : SavedTable} {table : TableId} (h : tableOf c t = .ok table) :
    c.findTable? t.schema t.table = some table := by
  unfold tableOf at h
  split at h
  · next hfound =>
    cases h
    exact hfound
  · cases h

theorem placed_placeAll {tables : List TableId} (h : d.tables.mapM (tableOf c) = .ok tables) :
    d.Placed c ((Canvas.blank c).placeAll tables) where
  catalog := Canvas.catalog_placeAll tables _
  placement i p hp := by
    rw [Canvas.placement_placeAll_blank] at hp
    cases hi : tables[i]? with
    | none =>
      rw [hi] at hp
      cases hp
    | some table =>
      rw [hi] at hp
      cases hp
      have hall := mapM_eq_ok_iff.mp h
      obtain ⟨hlt, rfl⟩ := List.getElem?_eq_some_iff.mp hi
      have hlt' : i < d.tables.length := hall.length_eq ▸ hlt
      exact ⟨d.tables[i], List.getElem?_eq_getElem hlt',
        findTable?_of_tableOf (hall.get hlt' hlt)⟩

/-! ## Relationships -/

theorem run_onCanvas_eq_ok_iff {α : Type} {x : Option (Except CanvasError α)} {y : α} :
    (onCanvas x).run = some (.ok y) ↔ x = some (.ok y) := by
  rcases x with _ | _ | _ <;> simp [onCanvas]

theorem position_of_instanceAt {n position : Nat} {i : InstanceId}
    (h : instanceAt (List.range n) position = .ok i) : i = position := by
  unfold instanceAt at h
  split at h
  · next hi =>
    cases h
    obtain ⟨_, hi⟩ := List.getElem?_eq_some_iff.mp hi
    rw [← hi, List.getElem_range]
  · cases h

/-- An endpoint is found just at the column that the document names. -/
theorem Placed.denotes (h : d.Placed c canvas) {s : SavedColumn} {e : Endpoint}
    (he : canvas.endpoint s.position s.column = some (.ok e)) : d.Denotes c s e := by
  obtain ⟨p, hp, hplace, htable, hfound⟩ := Canvas.found_of_endpoint he
  rw [h.catalog] at hfound
  rw [← htable] at hfound
  obtain ⟨t, ht, hid⟩ := h.placement _ p hp
  exact ⟨hplace, ⟨t, ht, htable ▸ hid⟩, hfound⟩

/-- Drawing an entry adds its relationship, and nothing else. -/
theorem Placed.draws (h : d.Placed c canvas) {n : Nat} {kind : JoinKind} {s : SavedRelationship}
    (hdraw : (drawRelationship (List.range n) kind canvas s).run = some (.ok canvas')) :
    ∃ r, d.Draws c kind s r ∧ r.id = canvas.graph.nextId ∧ canvas' = { canvas with
      graph := ⟨canvas.graph.relationships ++ [r], canvas.graph.nextId + 1⟩ } := by
  obtain ⟨a, ha, hdraw⟩ := run_bind_eq_ok_iff.mp hdraw
  obtain ⟨b, hb, hdraw⟩ := run_bind_eq_ok_iff.mp hdraw
  obtain ⟨id, hanswer, hdraw⟩ := run_bind_eq_ok_iff.mp hdraw
  cases hdraw
  obtain rfl := position_of_instanceAt (Option.some.inj ha)
  obtain rfl := position_of_instanceAt (Option.some.inj hb)
  rw [run_onCanvas_eq_ok_iff] at hanswer
  obtain ⟨x, y, g, hx, hy, hadd, hcanvas⟩ := Canvas.exists_of_connect hanswer
  have hdx := h.denotes hx
  have hdy := h.denotes hy
  obtain ⟨r, rfl, hid, hkind, hlt, hsides⟩ := Graph.exists_of_add hadd
  refine ⟨r, ⟨hkind, ?_⟩, hid, hcanvas⟩
  rw [← hdx.place, ← hdy.place]
  rcases hsides with ⟨ha, hb⟩ | ⟨ha, hb⟩ <;> rw [ha, hb] at hlt ⊢
  · exact .inl ⟨hlt, hdx, hdy⟩
  · exact .inr ⟨hlt, hdy, hdx⟩

structure Drawn (d : Document) (c : Catalog) (kind : JoinKind) (start : Canvas)
    (done : List SavedRelationship) (canvas : Canvas) : Prop where
  catalog : canvas.catalog = start.catalog
  placements : canvas.placements = start.placements
  nextId : canvas.graph.nextId = done.length
  ids : canvas.graph.relationships.map (·.id) = List.range done.length
  relationships : List.Forall₂ (d.Draws c kind) done canvas.graph.relationships

theorem Placed.of_drawn {start : Canvas} {kind : JoinKind} {done : List SavedRelationship}
    (h : d.Placed c start) (hd : d.Drawn c kind start done canvas) : d.Placed c canvas where
  catalog := hd.catalog.trans h.catalog
  placement i p hp := by
    unfold Canvas.placement at hp
    rw [hd.placements] at hp
    exact h.placement i p hp

theorem Drawn.next {start : Canvas} {kind : JoinKind} {done : List SavedRelationship}
    {s : SavedRelationship} {n : Nat} (h : d.Placed c start)
    (hd : d.Drawn c kind start done canvas)
    (hdraw : (drawRelationship (List.range n) kind canvas s).run = some (.ok canvas')) :
    d.Drawn c kind start (done ++ [s]) canvas' := by
  obtain ⟨r, hr, hid, rfl⟩ := (h.of_drawn hd).draws hdraw
  exact {
    catalog := hd.catalog
    placements := hd.placements
    nextId := by simp [hd.nextId]
    ids := by simp [hd.ids, hid, hd.nextId, List.range_succ]
    relationships := List.rel_append hd.relationships (.cons hr .nil) }

/-! ## Grid columns -/

theorem Placed.picks (hc : c.Built) (h : d.Placed c canvas) {n : Nat} {s : SavedGridColumn}
    {g : GridColumn} (hpick : (pickColumn (List.range n) canvas s).run = some (.ok g)) :
    d.Picks c s g := by
  obtain ⟨i, hi, hpick⟩ := run_bind_eq_ok_iff.mp hpick
  obtain rfl := position_of_instanceAt (Option.some.inj hi)
  obtain ⟨e, he, hpick⟩ := run_bind_eq_ok_iff.mp hpick
  have hdenotes := h.denotes (run_onCanvas_eq_ok_iff.mp he)
  obtain ⟨t, ht, htable⟩ := hdenotes.table
  have hpath := Catalog.path?_of_found hc.owned hc.filed htable hdenotes.column
  simp only [h.catalog, GridColumn.picked?, hpath] at hpick
  cases hpick
  exact {
    source := ⟨e, rfl, hdenotes⟩
    displayName := ⟨t, ht, rfl⟩
    aggregate := rfl
    sort := rfl
    visible := rfl
    criteria := rfl }

/-! ## The whole document -/

theorem loads_of_load (hc : c.Built) (h : d.load? c defaults = some (.ok q)) :
    d.Loads c defaults q := by
  obtain ⟨tables, htables, hcanvas, hcolumns, htotals⟩ := exists_of_load h
  have hall := mapM_eq_ok_iff.mp htables
  have hstart := placed_placeAll htables
  have hempty : d.Drawn c defaults.joinKind ((Canvas.blank c).placeAll tables) []
      ((Canvas.blank c).placeAll tables) := by
    refine ⟨rfl, rfl, ?_, ?_, ?_⟩ <;> rw [Canvas.graph_placeAll]
    · rfl
    · rfl
    · exact .nil
  have hdrawn := run_foldlM_done (fun _ _ _ _ => Drawn.next hstart) _ [] hempty hcanvas
  rw [List.nil_append] at hdrawn
  exact {
    catalog := hdrawn.catalog.trans hstart.catalog
    places := by
      rw [hdrawn.placements, Canvas.places_placeAll_blank, hall.length_eq]
    tables := by
      have hfound := hall.imp fun _ _ => findTable?_of_tableOf
      rw [← Canvas.tables_placeAll_blank c tables, ← hdrawn.placements] at hfound
      exact (List.forall₂_map_right_iff
        (R := fun (t : SavedTable) table => c.findTable? t.schema t.table = some table)).mp hfound
    ids := hdrawn.ids
    relationships := hdrawn.relationships
    columns := (forall₂_of_run_mapM hcolumns).imp fun _ _ => (hstart.of_drawn hdrawn).picks hc
    totals := htotals }

/-! ## Connection by positions -/

/-- Some relationship has a side at position `i`. -/
def Mentions (d : Document) (i : Nat) : Prop :=
  ∃ s ∈ d.relationships, s.a.position = i ∨ s.b.position = i

/-- Some relationship has one side at position `i` and the other at `j`. -/
def Relates (d : Document) (i j : Nat) : Prop :=
  ∃ s ∈ d.relationships, (s.a.position = i ∧ s.b.position = j) ∨
    (s.a.position = j ∧ s.b.position = i)

/-- Any two mentioned positions are related, directly or through others. -/
def Connected (d : Document) : Prop :=
  ∀ i j, d.Mentions i → d.Mentions j → ReflTransGen d.Relates i j

/-- An entry is drawn between its two positions, one way or the other. -/
theorem Draws.places {kind : JoinKind} {s : SavedRelationship} {r : Relationship}
    (h : d.Draws c kind s r) :
    (r.a.place = s.a.position ∧ r.b.place = s.b.position) ∨
      (r.a.place = s.b.position ∧ r.b.place = s.a.position) := by
  rcases h.sides with ⟨_, ha, hb⟩ | ⟨_, hb, ha⟩
  · exact .inl ⟨ha.place, hb.place⟩
  · exact .inr ⟨hb.place, ha.place⟩

/-- What holds of the sides of some relationship, whichever comes first, holds of some entry. -/
theorem Loads.exists_sides_iff (h : d.Loads c defaults q) (P : Nat → Nat → Prop)
    (hsymm : ∀ i j, P i j → P j i) :
    (∃ r ∈ q.canvas.graph.relationships, P r.a.place r.b.place) ↔
      ∃ s ∈ d.relationships, P s.a.position s.b.position := by
  constructor
  · intro hx
    obtain ⟨r, hr, hP⟩ := hx
    obtain ⟨s, hs, hsr⟩ := exists_of_forall₂ h.relationships hr
    refine ⟨s, hs, ?_⟩
    rcases hsr.places with ⟨ha, hb⟩ | ⟨ha, hb⟩ <;> rw [ha, hb] at hP
    · exact hP
    · exact hsymm _ _ hP
  · intro hx
    obtain ⟨s, hs, hP⟩ := hx
    obtain ⟨r, hr, hsr⟩ := exists_of_forall₂ h.relationships.flip hs
    refine ⟨r, hr, ?_⟩
    rcases hsr.places with ⟨ha, hb⟩ | ⟨ha, hb⟩ <;> rw [ha, hb]
    · exact hP
    · exact hsymm _ _ hP

theorem Loads.mentions_iff (h : d.Loads c defaults q) {i : Nat} :
    VisualQuery.Mentions q.canvas.graph.relationships i ↔ d.Mentions i :=
  h.exists_sides_iff (fun a b => a = i ∨ b = i) fun _ _ => Or.symm

theorem Loads.related_iff (h : d.Loads c defaults q) {i j : Nat} :
    Related q.canvas.graph.relationships i j ↔ d.Relates i j :=
  h.exists_sides_iff (fun a b => (a = i ∧ b = j) ∨ (a = j ∧ b = i))
    fun _ _ hij => hij.symm.imp And.symm And.symm

/-- Instances hang together as the positions of the document do. -/
theorem Loads.connected_iff (h : d.Loads c defaults q) :
    VisualQuery.Connected q.canvas.graph.relationships ↔ d.Connected := by
  have hrelated : Related q.canvas.graph.relationships = d.Relates := by
    funext i j
    exact propext h.related_iff
  simp only [VisualQuery.Connected, Connected, h.mentions_iff, hrelated]

/-! ## Answers -/

theorem compile?_of_error {e : PlanError}
    (h : q.canvas.graph.plan? q.canvas.catalog = some (.error e)) :
    q.compile? = some (.error e) := by
  rw [Query.compile?, Clauses.compile?_eq, h]
  rfl

theorem exists_compile?_of_ok {plan : JoinPlan}
    (h : q.canvas.graph.plan? q.canvas.catalog = some (.ok plan)) :
    ∃ clauses, q.compile? = some (.ok clauses) := by
  rw [Query.compile?, Clauses.compile?_eq, h]
  exact ⟨_, rfl⟩

theorem plannable_of_load (hc : c.Built) (h : d.load? c defaults = some (.ok q))
    (hne : q.canvas.graph.relationships ≠ []) :
    (∀ r ∈ q.canvas.graph.relationships, ¬ r.Foreign q.canvas.catalog) ∧
      Plannable q.canvas.catalog q.canvas.graph.relationships := by
  have hreached := reached_of_load h
  have howned : q.canvas.catalog.Owned := hreached.catalog_eq ▸ hc.owned
  have hr := hreached.anchored.not_foreign howned
  exact ⟨hr, plannable_of_resolved howned hne hr hreached.oriented⟩

/-- **What becomes of a document** that is loaded over a catalog that was read: every entry is where
its position says. Compiling answers that nothing is drawn just if there are no relationships, that
the instances are not connected just if the positions that relationships mention are not, never that
an endpoint is foreign, and otherwise with clauses. -/
theorem load_decided (hc : c.Built) (h : d.load? c defaults = some (.ok q)) :
    d.Loads c defaults q ∧
    (q.compile? = some (.error .noRelationships) ↔ d.relationships = []) ∧
    ((∃ stuck, q.compile? = some (.error (.disconnected stuck))) ↔
      d.relationships ≠ [] ∧ ¬ d.Connected) ∧
    (∀ id, q.compile? ≠ some (.error (.foreignEndpoint id))) ∧
    ((∃ clauses, q.compile? = some (.ok clauses)) ↔ d.relationships ≠ [] ∧ d.Connected) := by
  have hloads := loads_of_load hc h
  refine ⟨hloads, ?_⟩
  by_cases hnil : d.relationships = []
  · have hempty := hloads.relationships
    rw [hnil, List.forall₂_nil_left_iff] at hempty
    simp [compile?_of_error (plan?_of_nil hempty), hnil]
  have hne : q.canvas.graph.relationships ≠ [] := by
    intro hempty
    have hall := hloads.relationships
    rw [hempty, List.forall₂_nil_right_iff] at hall
    exact hnil hall
  obtain ⟨hr, hplannable⟩ := plannable_of_load hc h hne
  by_cases hconnected : d.Connected
  · obtain ⟨plan, hplan⟩ :=
      (exists_plan?_iff hr hplannable).mpr (hloads.connected_iff.mpr hconnected)
    obtain ⟨clauses, hclauses⟩ := exists_compile?_of_ok hplan
    simp [hclauses, hnil, hconnected]
  · obtain ⟨stuck, hstuck⟩ := (exists_disconnected_iff hr hplannable).mpr
      fun hx => hconnected (hloads.connected_iff.mp hx)
    simp [compile?_of_error hstuck, hnil, hconnected]

end Document

/-- Orders with their items, drawn to customers from the later position to the earlier one;
customers come once more without being drawn to. -/
def itemsOfOrders : Document where
  catalog := .null
  tables := [⟨"shop", "orders"⟩, ⟨"shop", "customers"⟩, ⟨"shop", "items"⟩, ⟨"shop", "customers"⟩]
  relationships := [⟨⟨1, "id"⟩, ⟨0, "customer_id"⟩, none⟩,
    ⟨⟨0, "id"⟩, ⟨2, "order_id"⟩, some .left⟩]
  columns := [⟨⟨2, "sku"⟩, none, some .count, .none, true, [" ", "7"]⟩]
  totals := none

/-- The placement that nothing mentions does not keep the others from being connected. -/
theorem load_decided_itemsOfOrders : Catalog.shop.Built ∧ itemsOfOrders.Connected ∧
    ∃ q clauses, itemsOfOrders.load? Catalog.shop Settings.standard.defaults = some (.ok q) ∧
      itemsOfOrders.Loads Catalog.shop Settings.standard.defaults q ∧
      q.compile? = some (.ok clauses) ∧
      q.canvas.graph.relationships =
        [⟨0, ⟨0, 2, 4⟩, ⟨1, 0, 0⟩, .inner⟩, ⟨1, ⟨0, 2, 3⟩, ⟨2, 1, 1⟩, .left⟩] := by
  have h : itemsOfOrders.load? Catalog.shop Settings.standard.defaults = some (.ok _) := rfl
  obtain ⟨hloads, _, _, _, hok⟩ := Document.load_decided Catalog.built_shop h
  exact ⟨Catalog.built_shop, (hok.mp ⟨_, rfl⟩).2, _, _, rfl, hloads, rfl, rfl⟩

end VisualQuery
