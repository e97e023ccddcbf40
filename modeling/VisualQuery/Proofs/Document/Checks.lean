import VisualQuery.Proofs.Catalog.Reordering
import VisualQuery.Proofs.Document.Outcome

/-! # The checks of a document

A document is carried out entry by entry, and what an entry asks for is asked of the document, of
the canvas or of the graph. Seen from the document these are checks of four sorts, in one order for
the whole document (`checks`). Loading makes them in this order: it succeeds if all of them pass,
and the first that does not pass is what it refuses the document for (`load_checks`). -/

namespace VisualQuery

namespace Catalog
variable {c : Catalog} {t : SavedTable}

def HasTable (c : Catalog) (t : SavedTable) : Prop := ∃ id, c.nameOf? id = some (t.schema, t.table)

/-- There is a column of a name in the table of these names. -/
def HasColumn (c : Catalog) (t : SavedTable) (name : String) : Prop :=
  ∃ column ∈ c.columns, c.nameOf? column.table = some (t.schema, t.table) ∧ column.name = name

theorem Orderly.hasTable_iff (h : Orderly c) :
    c.HasTable t ↔ ∃ id, c.findTable? t.schema t.table = some id :=
  exists_congr fun _ => h.findTable?_eq_some_iff.symm

/-- In a table that is there, look-up by name answers, and finds the columns that are there. -/
theorem Orderly.exists_findColumn? (h : Orderly c) {id : TableId}
    (ht : c.findTable? t.schema t.table = some id) (name : String) :
    ∃ found, c.findColumn? id name = some found ∧ (c.HasColumn t name ↔ ∃ k, found = some k) := by
  obtain ⟨table, _, htable, _⟩ := nameOf?_eq_some_iff.mp (h.findTable?_eq_some_iff.mp ht)
  refine ⟨_, findColumn?_of_table htable name, ?_⟩
  rw [← Option.isSome_iff_exists, List.find?_isSome]
  simp only [mem_columnsIn_iff, h.owned.listsColumn_iff]
  constructor
  · intro hx
    obtain ⟨column, hmem, hnames, rfl⟩ := hx
    obtain ⟨k, hk⟩ := Array.mem_iff_getElem?.mp hmem
    have hown := h.findTable?_eq_some_iff.mpr hnames
    rw [ht] at hown
    exact ⟨k, ⟨column, hk, (Option.some.inj hown).symm⟩, by simp [hk]⟩
  · intro hx
    obtain ⟨k, ⟨column, hk, rfl⟩, hname⟩ := hx
    rw [hk, Option.any_some, decide_eq_true_eq] at hname
    exact ⟨column, Array.mem_of_getElem? hk, h.findTable?_eq_some_iff.mp ht, hname⟩

end Catalog

/-! ## Checks -/

/-- What can be asked of a document: that a table be in the catalog, that there be a placement at a
position, that a column be in the table placed there, that a relationship be between two
placements. -/
inductive Check where
  | table (t : SavedTable)
  | placement (position : Nat)
  | column (s : SavedColumn)
  | apart (r : SavedRelationship)
deriving DecidableEq, Repr

namespace Document

/-- There is a placement at the position, and the column in the table placed there. -/
def Offers (d : Document) (c : Catalog) (s : SavedColumn) : Prop :=
  ∃ t, d.tables[s.position]? = some t ∧ c.HasColumn t s.column

/-- Every table is in the catalog, every column that is named is in the table that stands at its
position, and every relationship is between two positions. -/
structure Fits (d : Document) (c : Catalog) : Prop where
  tables : ∀ t ∈ d.tables, c.HasTable t
  relationships : ∀ r ∈ d.relationships,
    d.Offers c r.a ∧ d.Offers c r.b ∧ r.a.position ≠ r.b.position
  columns : ∀ s ∈ d.columns, d.Offers c s.source

end Document

def Check.Passes (d : Document) (c : Catalog) : Check → Prop
  | .table t => c.HasTable t
  | .placement position => position < d.tables.length
  | .column s => d.Offers c s
  | .apart r => r.a.position ≠ r.b.position

/-- What a document is refused for that does not pass a check. -/
def Check.error (d : Document) : Check → DocumentError
  | .table t => .unknownTable t.schema t.table
  | .placement position => .unknownPlacement position
  | .column s =>
    let name := ((d.tables[s.position]?).map fun t => t.schema ++ "." ++ t.table).getD ""
    .canvas (.unknownColumn name s.column)
  | .apart r => .canvas (.graph (.sameInstance r.a.position))

/-- The checks of a relationship: both placements before either column. -/
def SavedRelationship.checks (r : SavedRelationship) : List Check :=
  [.placement r.a.position, .placement r.b.position, .column r.a, .column r.b, .apart r]

def SavedGridColumn.checks (s : SavedGridColumn) : List Check :=
  [.placement s.source.position, .column s.source]

namespace Document
variable {d : Document} {c : Catalog} {canvas : Canvas}

/-- All checks of a document in order: tables, relationships, grid columns. -/
def checks (d : Document) : List Check :=
  d.tables.map .table ++ d.relationships.flatMap (·.checks) ++ d.columns.flatMap (·.checks)

def FirstFault (d : Document) (c : Catalog) (k : Check) : Prop :=
  ∃ before after, d.checks = before ++ k :: after ∧ (∀ x ∈ before, x.Passes d c) ∧ ¬ k.Passes d c

theorem Offers.position_lt {s : SavedColumn} (h : d.Offers c s) : s.position < d.tables.length := by
  obtain ⟨t, ht, _⟩ := h
  exact (List.getElem?_eq_some_iff.mp ht).1

theorem passes_relationship_iff {r : SavedRelationship} :
    (∀ k ∈ r.checks, k.Passes d c) ↔
      d.Offers c r.a ∧ d.Offers c r.b ∧ r.a.position ≠ r.b.position := by
  simp only [SavedRelationship.checks, List.forall_mem_cons, Check.Passes]
  constructor
  · intro hx
    obtain ⟨_, _, ha, hb, hne, _⟩ := hx
    exact ⟨ha, hb, hne⟩
  · intro hx
    obtain ⟨ha, hb, hne⟩ := hx
    exact ⟨ha.position_lt, hb.position_lt, ha, hb, hne, by simp⟩

theorem passes_gridColumn_iff {s : SavedGridColumn} :
    (∀ k ∈ s.checks, k.Passes d c) ↔ d.Offers c s.source := by
  simp only [SavedGridColumn.checks, List.forall_mem_cons, Check.Passes]
  exact ⟨fun hx => hx.2.1, fun h => ⟨h.position_lt, h, by simp⟩⟩

/-- A document fits if it passes every check. -/
theorem fits_iff : d.Fits c ↔ ∀ k ∈ d.checks, k.Passes d c := by
  have hmem : ∀ k, k ∈ d.checks ↔ (∃ t ∈ d.tables, .table t = k) ∨
      (∃ r ∈ d.relationships, k ∈ r.checks) ∨ ∃ s ∈ d.columns, k ∈ s.checks := by
    simp [checks]
  constructor
  · intro h k hk
    rcases (hmem k).mp hk with ⟨t, ht, rfl⟩ | ⟨r, hr, hk⟩ | ⟨s, hs, hk⟩
    · exact h.tables t ht
    · exact passes_relationship_iff.mpr (h.relationships r hr) k hk
    · exact passes_gridColumn_iff.mpr (h.columns s hs) k hk
  · intro h
    exact {
      tables := fun t ht => h _ ((hmem _).mpr (.inl ⟨t, ht, rfl⟩))
      relationships := fun r hr =>
        passes_relationship_iff.mp fun k hk => h k ((hmem k).mpr (.inr (.inl ⟨r, hr, hk⟩)))
      columns := fun s hs =>
        passes_gridColumn_iff.mp fun k hk => h k ((hmem k).mpr (.inr (.inr ⟨s, hs, hk⟩))) }

/-! ## What a step of loading checks -/

/-- A canvas on which every table of a document stands at its position. -/
structure Stands (d : Document) (c : Catalog) (canvas : Canvas) : Prop where
  catalog : canvas.catalog = c
  placement : ∀ i t, d.tables[i]? = some t →
    ∃ table, canvas.placement i = .ok ⟨i, table⟩ ∧ c.findTable? t.schema t.table = some table

abbrev Decides {α : Type} (d : Document) (c : Catalog) (R : α → Prop) (checks : List Check)
    (x : ExceptT DocumentError Option α) : Prop :=
  DecidedRun (·.Passes d c) (·.error d) R checks x

theorem stands_placeAll {tables : List TableId} (h : d.tables.mapM (tableOf c) = .ok tables) :
    d.Stands c ((Canvas.blank c).placeAll tables) where
  catalog := Canvas.catalog_placeAll tables _
  placement i t ht := by
    have hall := mapM_eq_ok_iff.mp h
    obtain ⟨hlt, rfl⟩ := List.getElem?_eq_some_iff.mp ht
    have hlt' : i < tables.length := hall.length_eq ▸ hlt
    refine ⟨tables[i], ?_, findTable?_of_tableOf (hall.get hlt hlt')⟩
    rw [Canvas.placement_placeAll_blank, List.getElem?_eq_getElem hlt']

theorem decides_tableOf (hc : c.Orderly) (t : SavedTable) :
    Decided (fun k : Check => k.Passes d c) (·.error d) (fun _ => True) [.table t]
      (tableOf c t) := by
  refine .single (fun ht => ?_) fun ht => ?_
  · obtain ⟨id, hid⟩ := hc.hasTable_iff.mp ht
    exact ⟨id, by simp [tableOf, hid], trivial⟩
  · have hnone : c.findTable? t.schema t.table = none :=
      Option.eq_none_iff_forall_ne_some.mpr fun id hid => ht (hc.hasTable_iff.mpr ⟨id, hid⟩)
    simp [tableOf, hnone, Check.error]

theorem decides_instanceAt (position : Nat) :
    d.Decides c (fun i => i = position ∧ position < d.tables.length) [.placement position]
      (liftM (instanceAt (List.range d.tables.length) position)) := by
  refine .lift (.single (fun h => ?_) fun h => ?_)
  · exact ⟨position, by simp [instanceAt, List.getElem?_range h], rfl, h⟩
  · have hnone : (List.range d.tables.length)[position]? = none :=
      List.getElem?_eq_none (by simpa [Check.Passes] using h)
    simp [instanceAt, hnone, Check.error]

/-- A column is looked for in the table that stands at its position; it has a name of its own. -/
theorem Stands.decides_endpoint (h : d.Stands c canvas) (hc : c.Orderly) {s : SavedColumn}
    (hs : s.position < d.tables.length) :
    d.Decides c (fun e => e.place = s.position ∧ ∃ name, c.path? e.column = some name) [.column s]
      (onCanvas (canvas.endpoint s.position s.column)) := by
  have ht : d.tables[s.position]? = some d.tables[s.position] := List.getElem?_eq_getElem hs
  generalize d.tables[s.position] = t at ht
  obtain ⟨table, hplacement, htable⟩ := h.placement _ t ht
  obtain ⟨found, hfound, hcolumn⟩ := hc.exists_findColumn? htable s.column
  have hoffers : d.Offers c s ↔ ∃ k, found = some k := by simp [Offers, ht, hcolumn]
  have hname := hc.filed.fullName?_of_findTable? htable
  cases found with
  | some k =>
    have hpath := Catalog.path?_of_found hc.owned hc.filed htable hfound
    refine ⟨.ok ⟨s.position, table, k⟩, ?_, .single (fun _ => ⟨_, rfl, rfl, _, hpath⟩) fun hk => ?_⟩
    · simp [Canvas.endpoint, hplacement, h.catalog, hfound, onCanvas]
    · exact absurd (hoffers.mpr ⟨k, rfl⟩) hk
  | none =>
    refine ⟨.error (Check.error d (.column s)), ?_, .single (fun hk => ?_) fun _ => rfl⟩
    · simp [Canvas.endpoint, hplacement, h.catalog, hfound, onCanvas, Check.error, ht, hname]
    · obtain ⟨k, hk⟩ := hoffers.mp hk
      cases hk

/-- Both columns are looked for before the placements are compared. -/
theorem onCanvas_connect (canvas : Canvas) (a b : InstanceId × String) (kind : JoinKind) :
    (onCanvas (canvas.connect a b kind).1 >>= fun _ => pure (canvas.connect a b kind).2) = (do
      let x ← onCanvas (canvas.endpoint a.1 a.2)
      let y ← onCanvas (canvas.endpoint b.1 b.2)
      match canvas.graph.add x y kind with
      | (.ok _, graph) => pure { canvas with graph := graph }
      | (.error cause, _) => liftM (Except.error (DocumentError.canvas (.graph cause)))) := by
  unfold Canvas.connect Canvas.sides
  rcases canvas.endpoint a.1 a.2 with _ | _ | x
  · rfl
  · rfl
  rcases canvas.endpoint b.1 b.2 with _ | _ | y
  · rfl
  · rfl
  show _ = (match canvas.graph.add x y kind with
    | (.ok _, graph) => pure { canvas with graph := graph }
    | (.error cause, _) => liftM (Except.error (DocumentError.canvas (.graph cause))))
  simp only [Option.bind_eq_bind, Option.bind_some, Option.pure_def]
  rcases canvas.graph.add x y kind with ⟨_ | _, _⟩ <;> rfl

/-- Tables stay where they stand, whatever is drawn. -/
theorem Stands.decides_connect (h : d.Stands c canvas) (hc : c.Orderly) {r : SavedRelationship}
    (ha : r.a.position < d.tables.length) (hb : r.b.position < d.tables.length) (kind : JoinKind) :
    d.Decides c (d.Stands c) [.column r.a, .column r.b, .apart r]
      (onCanvas (canvas.connect (r.a.position, r.a.column) (r.b.position, r.b.column) kind).1 >>=
        fun _ => pure
          (canvas.connect (r.a.position, r.a.column) (r.b.position, r.b.column) kind).2) := by
  show d.Decides c _ ([.column r.a] ++ ([.column r.b] ++ [.apart r])) _
  rw [onCanvas_connect]
  refine (h.decides_endpoint hc ha).bind fun a ha => (h.decides_endpoint hc hb).bind fun b hb => ?_
  obtain ⟨ha, _⟩ := ha
  obtain ⟨hb, _⟩ := hb
  by_cases hplaces : a.place = b.place
  · have heq : ¬ r.a.position ≠ r.b.position := by rwa [not_not, ← ha, ← hb]
    rw [Graph.add, if_pos hplaces, ha]
    exact .lift (.single (fun hne => absurd hne heq) fun _ => rfl)
  · have hne : r.a.position ≠ r.b.position := by rwa [← ha, ← hb]
    rw [Graph.add, if_neg hplaces]
    exact ⟨_, rfl, .single (fun _ => ⟨_, rfl, h.catalog, h.placement⟩) fun heq => absurd hne heq⟩

theorem Stands.decides_drawRelationship (h : d.Stands c canvas) (hc : c.Orderly) (kind : JoinKind)
    (r : SavedRelationship) :
    d.Decides c (d.Stands c) r.checks
      (drawRelationship (List.range d.tables.length) kind canvas r) := by
  show d.Decides c _ ([.placement r.a.position] ++ ([.placement r.b.position] ++
    [.column r.a, .column r.b, .apart r])) _
  refine (decides_instanceAt _).bind fun i hi => (decides_instanceAt _).bind fun j hj => ?_
  obtain ⟨rfl, ha⟩ := hi
  obtain ⟨rfl, hb⟩ := hj
  exact h.decides_connect hc ha hb _

theorem Stands.decides_pickColumn (h : d.Stands c canvas) (hc : c.Orderly) (s : SavedGridColumn) :
    d.Decides c (fun _ => True) s.checks
      (pickColumn (List.range d.tables.length) canvas s) := by
  show d.Decides c _ ([.placement s.source.position] ++ ([.column s.source] ++ [])) _
  refine (decides_instanceAt _).bind fun i hi => ?_
  obtain ⟨rfl, hs⟩ := hi
  refine (h.decides_endpoint hc hs).bind fun e he => ?_
  obtain ⟨_, name, hname⟩ := he
  rw [GridColumn.picked?, h.catalog, hname]
  exact ⟨_, rfl, .passed (by simp) trivial⟩

/-! ## The whole document -/

/-- Tables stand where they are placed, whatever is drawn, so every step finds what it needs. -/
theorem decides_load (hc : c.Orderly) (d : Document) (defaults : Defaults) :
    d.Decides c (fun _ => True) d.checks (ExceptT.mk (d.load? c defaults)) := by
  rw [load?_eq, checks, List.map_eq_flatMap, List.append_assoc]
  -- from here on all tables were found, and positions are the numbers of their instances
  refine (DecidedRun.lift (Decided.mapM (decides_tableOf hc) d.tables).and_eq).bind
    fun tables htables => ?_
  have hlength : tables.length = d.tables.length := (mapM_eq_ok_iff.mp htables.2).length_eq.symm
  simp only [hlength]
  refine (DecidedRun.foldlM (fun _ r hs => hs.decides_drawRelationship hc _ r) d.relationships
    (stands_placeAll htables.2)).bind fun canvas hcanvas => ?_
  exact (DecidedRun.mapM (hcanvas.decides_pickColumn hc) d.columns).map fun _ _ => trivial

/-- **Loading checks a document entry by entry.** Over a catalog that was read it always has an
answer: it succeeds just if the document fits the catalog, and otherwise refuses the document for
the first check that it does not pass, however many others there are. -/
theorem load_checks (hc : c.Read) (d : Document) (defaults : Defaults) :
    (∃ answer, d.load? c defaults = some answer) ∧
    ((∃ q, d.load? c defaults = some (.ok q)) ↔ d.Fits c) ∧
    ∀ e, d.load? c defaults = some (.error e) ↔ ∃ k, d.FirstFault c k ∧ e = k.error d := by
  obtain ⟨answer, hanswer, h⟩ := decides_load hc.orderly d defaults
  have hload : d.load? c defaults = some answer := hanswer
  simp only [hload, Option.some.injEq]
  refine ⟨⟨answer, rfl⟩, h.exists_ok_iff.trans fits_iff.symm, fun e => h.eq_error_iff.trans ?_⟩
  constructor
  · intro hx
    obtain ⟨before, k, after, hchecks, hbefore, hk, rfl⟩ := hx
    exact ⟨k, ⟨before, after, hchecks, hbefore, hk⟩, rfl⟩
  · intro hx
    obtain ⟨k, ⟨before, after, hchecks, hbefore, hk⟩, rfl⟩ := hx
    exact ⟨before, k, after, hchecks, hbefore, hk, rfl⟩

end Document

/-- Buyers and their orders, registered in the order of their names. -/
def buyersFirst : Catalog where
  schemas := #[⟨"shop", [0, 1]⟩]
  tables := #[⟨"buyers", 0, [0]⟩, ⟨"orders", 0, [1]⟩]
  columns := #[⟨"id", true, 0⟩, ⟨"buyer", false, 1⟩]

theorem read_buyersFirst : buyersFirst.Read := by
  refine .inr ⟨.object [("shop", .object [("buyers", .list [.list [.text "id", .boolean true]]),
    ("orders", .list [.list [.text "buyer", .boolean false]])])], ?_, rfl⟩
  have hcolumn : ∀ name key, (Json.Value.list [.list [.text name, .boolean key]]).Sorted := by
    intro name key
    refine .list fun v hv => ?_
    obtain rfl := List.mem_singleton.mp hv
    refine .list fun v hv => ?_
    simp only [List.mem_cons, List.not_mem_nil, or_false] at hv
    rcases hv with rfl | rfl
    · exact .text name
    · exact .boolean key
  have hkeys : "buyers" < "orders" := by decide +kernel
  refine .object (List.pairwise_singleton _ _) fun m hm => ?_
  obtain rfl := List.mem_singleton.mp hm
  refine .object (List.pairwise_pair.mpr hkeys) fun m hm => ?_
  simp only [List.mem_cons, List.not_mem_nil, or_false] at hm
  rcases hm with rfl | rfl <;> exact hcolumn _ _

/-- Buyers and their orders, which are shown by buyer. -/
def ordersOfBuyers : Document where
  catalog := .null
  tables := [⟨"shop", "buyers"⟩, ⟨"shop", "orders"⟩]
  relationships := [⟨⟨0, "id"⟩, ⟨1, "buyer"⟩, none⟩]
  columns := [⟨⟨1, "buyer"⟩, none, none, .ascending, true, []⟩]
  totals := none

/-- Orders and their buyers again, but one relationship is between two columns of the orders, of
which there is only one, and a column is picked where nothing is placed. -/
def ordersWithinOrders : Document :=
  { ordersOfBuyers with
    relationships := ordersOfBuyers.relationships ++ [⟨⟨1, "buyer"⟩, ⟨1, "id"⟩, some .left⟩]
    columns := [⟨⟨2, "id"⟩, none, none, .none, true, []⟩] }

/-- Of its three faults the missing column comes first. -/
theorem load_checks_ordersWithinOrders : buyersFirst.Read ∧ ordersOfBuyers.Fits buyersFirst ∧
    ∃ k, ordersWithinOrders.FirstFault buyersFirst k ∧
      k.error ordersWithinOrders = .canvas (.unknownColumn "shop.orders" "id") := by
  have h := fun d => Document.load_checks read_buyersFirst d Settings.standard.defaults
  obtain ⟨k, hk, he⟩ := ((h ordersWithinOrders).2.2 _).mp rfl
  exact ⟨read_buyersFirst, (h ordersOfBuyers).2.1.mp ⟨_, rfl⟩, k, hk, he.symm⟩

end VisualQuery
