import VisualQuery.Catalog.Description
import VisualQuery.Proofs.Traversal

/-! # Owners in a catalog

In a catalog that was read, tables and columns agree on who owns whom: every column that a table
lists is there and names that table as its owner, and every column is listed by the table it
names (`Owned`). Registration keeps this, so it holds of every catalog read from a text or from a
value (`Built.owned`). -/

namespace VisualQuery.Catalog

/-- Tables list the columns that name them as owners, and these only. -/
structure Owned (c : Catalog) : Prop where
  listed : ∀ (t : TableId) (table : Table), c.tables[t]? = some table → ∀ k ∈ table.columns,
    ∃ column : Column, c.columns[k]? = some column ∧ column.table = t
  placed : ∀ (k : ColumnId) (column : Column), c.columns[k]? = some column →
    ∃ table : Table, c.tables[column.table]? = some table ∧ k ∈ table.columns

def ListsColumn (c : Catalog) (t : TableId) (k : ColumnId) : Prop :=
  ∃ table, c.tables[t]? = some table ∧ k ∈ table.columns

/-- The columns that a table lists; a table that is not there lists none. -/
def columnsIn (c : Catalog) (t : TableId) : List ColumnId := (c.columnsOf? t).getD []

/-- A catalog that was read. -/
def Built (c : Catalog) : Prop := (∃ text, ofText text = .ok c) ∨ ∃ v, ofValue v = .ok c

example : Built empty := .inr ⟨.object [], rfl⟩

/-- A shop: customers, items and orders, in the order in which they are listed by name. -/
def shop : Catalog where
  schemas := #[⟨"shop", [0, 1, 2]⟩]
  tables := #[⟨"customers", 0, [0]⟩, ⟨"items", 0, [1, 2]⟩, ⟨"orders", 0, [3, 4]⟩]
  columns := #[⟨"id", true, 0⟩, ⟨"order_id", false, 1⟩, ⟨"sku", false, 1⟩, ⟨"id", true, 2⟩,
    ⟨"customer_id", false, 2⟩]

theorem built_shop : Built shop :=
  .inr ⟨.object [("shop", .object [
    ("customers", .list [.list [.text "id", .boolean true]]),
    ("items", .list [.list [.text "order_id", .boolean false], .list [.text "sku", .boolean false]]),
    ("orders", .list [.list [.text "id", .boolean true],
      .list [.text "customer_id", .boolean false]])])], rfl⟩

theorem owned_empty : Owned empty where
  listed t table h := by simp [empty] at h
  placed k column h := by simp [empty] at h

variable {c c' : Catalog}

theorem columnsIn_of_table {t : TableId} {table : Table} (h : c.tables[t]? = some table) :
    c.columnsIn t = table.columns := by
  rw [columnsIn, columnsOf?, h]
  rfl

theorem columnsIn_of_none {t : TableId} (h : c.tables[t]? = none) : c.columnsIn t = [] := by
  rw [columnsIn, columnsOf?, h]
  rfl

theorem mem_columnsIn_iff {t : TableId} {k : ColumnId} : k ∈ c.columnsIn t ↔ c.ListsColumn t k := by
  unfold columnsIn columnsOf? ListsColumn
  cases c.tables[t]? <;> simp

theorem columnsOf?_eq (c : Catalog) (t : TableId) :
    c.columnsOf? t = c.tables[t]?.map fun _ => c.columnsIn t := by
  unfold columnsIn columnsOf?
  cases c.tables[t]? <;> rfl

/-- The columns of a table are those that name it as their owner. -/
theorem Owned.listsColumn_iff (h : Owned c) {t : TableId} {k : ColumnId} :
    c.ListsColumn t k ↔ ∃ column : Column, c.columns[k]? = some column ∧ column.table = t := by
  constructor
  · intro hx
    obtain ⟨table, ht, hk⟩ := hx
    exact h.listed t table ht k hk
  · intro hx
    obtain ⟨column, hcolumn, rfl⟩ := hx
    exact h.placed k column hcolumn

/-- In a table that is there, look-up by name goes through its columns. -/
theorem findColumn?_of_table {t : TableId} {table : Table} (h : c.tables[t]? = some table)
    (name : String) : c.findColumn? t name =
      some ((c.columnsIn t).find? fun k => (c.columns[k]?).any (·.name = name)) := by
  simp [findColumn?, columnsOf?_eq, h]

/-- A column that look-up by name finds is one of the table. -/
theorem listsColumn_of_findColumn? {t : TableId} {name : String} {k : ColumnId}
    (h : c.findColumn? t name = some (some k)) : c.ListsColumn t k := by
  obtain ⟨ids, hids, h⟩ := Option.bind_eq_some_iff.mp h
  rw [← mem_columnsIn_iff, columnsIn, hids]
  exact List.mem_of_find?_eq_some (Option.some.inj h)

theorem Owned.addSchema (h : Owned c) (name : String) : Owned (c.addSchema name) :=
  ⟨h.listed, h.placed⟩

theorem Owned.addTable (h : Owned c) (schema : SchemaId) (name : String) :
    Owned (c.addTable schema name) where
  listed t table ht k hk := by
    simp only [Catalog.addTable, Array.getElem?_push] at ht ⊢
    split at ht
    · cases ht
      simp at hk
    · exact h.listed t table ht k hk
  placed k column hk := by
    obtain ⟨table, ht, hm⟩ := h.placed k column hk
    refine ⟨table, ?_, hm⟩
    have hlt := (Array.getElem?_eq_some_iff.mp ht).1
    simp only [Catalog.addTable, Array.getElem?_push]
    rwa [if_neg (Nat.ne_of_lt hlt)]

/-- The tables behind the registration of a column. -/
theorem tables_addColumn (c : Catalog) (t : TableId) (name : String) (key : Bool) (u : TableId) :
    (c.addColumn t name key).tables[u]? = c.tables[u]?.map fun table =>
      if t = u then { table with columns := table.columns ++ [c.columns.size] } else table := by
  simp only [Catalog.addColumn, Array.getElem?_modify]
  split <;> simp

theorem columns_addColumn (c : Catalog) (t : TableId) (name : String) (key : Bool) (k : ColumnId) :
    (c.addColumn t name key).columns[k]? =
      if k = c.columns.size then some ⟨name, key, t⟩ else c.columns[k]? := by
  simp only [Catalog.addColumn, Array.getElem?_push]

theorem Owned.addColumn (h : Owned c) {t : TableId} (ht : t < c.tables.size) (name : String)
    (key : Bool) : Owned (c.addColumn t name key) where
  listed u table hu k hk := by
    rw [tables_addColumn] at hu
    obtain ⟨old, hold, rfl⟩ := Option.map_eq_some_iff.mp hu
    rw [columns_addColumn]
    by_cases hk' : k ∈ old.columns
    · obtain ⟨column, hc, ho⟩ := h.listed u old hold k hk'
      have hlt := (Array.getElem?_eq_some_iff.mp hc).1
      exact ⟨column, by rwa [if_neg (Nat.ne_of_lt hlt)], ho⟩
    · split at hk
      · next he =>
        have : k = c.columns.size := by simpa [hk'] using hk
        exact ⟨_, if_pos this, he⟩
      · exact absurd hk hk'
  placed k column hk := by
    rw [columns_addColumn] at hk
    rw [tables_addColumn]
    split at hk
    · next he =>
      cases hk
      exact ⟨_, by rw [Array.getElem?_eq_getElem ht]; rfl, by simp [he]⟩
    · obtain ⟨table, hu, hm⟩ := h.placed k column hk
      rw [hu]
      refine ⟨_, rfl, ?_⟩
      split
      · exact List.mem_append_left _ hm
      · exact hm

/-! ## Descriptions -/

/-- Columns are registered in a table that is there. -/
theorem describeColumn_keeps {t : TableId} {d : ColumnDescription}
    (h : Owned c ∧ t < c.tables.size) (hd : describeColumn t c d = .ok c') :
    Owned c' ∧ t < c'.tables.size := by
  obtain ⟨_, _, hd⟩ := bind_eq_ok_iff.mp hd
  cases hd
  exact ⟨h.1.addColumn h.2 d.name d.isPrimaryKey, by simpa [Catalog.addColumn] using h.2⟩

theorem describeTable_keeps {schema : SchemaId} {d : TableDescription} (h : Owned c)
    (hd : describeTable schema c d = .ok c') : Owned c' := by
  obtain ⟨_, _, hd⟩ := bind_eq_ok_iff.mp hd
  refine (foldlM_keeps (fun s x s' => describeColumn_keeps) d.2 ⟨h.addTable schema d.1, ?_⟩ hd).1
  simp [Catalog.addTable]

theorem describeSchema_keeps {d : SchemaDescription} (h : Owned c)
    (hd : describeSchema c d = .ok c') : Owned c' := by
  obtain ⟨_, _, hd⟩ := bind_eq_ok_iff.mp hd
  exact foldlM_keeps (fun s x s' => describeTable_keeps) d.2 (h.addSchema d.1) hd

theorem owned_ofDescription {d : Description} (h : ofDescription d = .ok c) : Owned c :=
  foldlM_keeps (fun _ _ _ => describeSchema_keeps) d owned_empty h

theorem ofText_eq_ok {text : String} (h : ofText text = .ok c) :
    ∃ d, Description.ofText text = .ok d ∧ ofDescription d = .ok c := by
  unfold ofText at h
  split at h
  · cases h
  · next d hd => exact ⟨d, hd, h⟩

theorem ofValue_eq_ok {v : Json.Value} (h : ofValue v = .ok c) :
    ∃ d, Description.ofValue v = .ok d ∧ ofDescription d = .ok c := by
  unfold ofValue at h
  split at h
  · cases h
  · next d hd => exact ⟨d, hd, h⟩

theorem Built.exists_description (h : Built c) : ∃ d, ofDescription d = .ok c := by
  rcases h with ⟨text, h⟩ | ⟨v, h⟩
  · obtain ⟨d, _, hd⟩ := ofText_eq_ok h
    exact ⟨d, hd⟩
  · obtain ⟨d, _, hd⟩ := ofValue_eq_ok h
    exact ⟨d, hd⟩

/-- **Owners agree** in every catalog that was read. -/
theorem Built.owned (h : Built c) : Owned c := by
  obtain ⟨d, hd⟩ := h.exists_description
  exact owned_ofDescription hd

end VisualQuery.Catalog
