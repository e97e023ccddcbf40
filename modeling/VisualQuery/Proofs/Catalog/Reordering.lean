import VisualQuery.Proofs.Canvas.Renumbering
import VisualQuery.Proofs.Catalog.Naming

/-! # Catalogs in another order

Descriptions may list the same schemas and the same tables within each schema in different orders
(`Description.SameContent`). Catalogs that were read from them number tables and columns
differently. But names settle which table of one is which table of the other, and the position in
its table settles which column is which (`Orderly.renumbers`). -/

namespace VisualQuery

/-- The same schemas in some order, each with the same tables in some order. -/
def Description.SameContent (d d' : Description) : Prop :=
  ∃ m : Description, d.Perm m ∧ List.Forall₂ (fun s s' => s.1 = s'.1 ∧ s.2.Perm s'.2) m d'

/-- A description has a table of these names with these columns. -/
def Description.Lists (d : Description) (schema name : String)
    (columns : List ColumnDescription) : Prop :=
  ∃ tables, (schema, tables) ∈ d ∧ (name, columns) ∈ tables

theorem Description.SameContent.lists_iff {d d' : Description} (h : d.SameContent d')
    {schema name : String} {columns : List ColumnDescription} :
    d.Lists schema name columns ↔ d'.Lists schema name columns := by
  obtain ⟨m, hperm, hm⟩ := h
  constructor
  · intro hx
    obtain ⟨tables, hs, ht⟩ := hx
    obtain ⟨⟨_, tables'⟩, hs', rfl, htables⟩ := exists_of_forall₂ hm.flip (hperm.mem_iff.mp hs)
    exact ⟨tables', hs', htables.mem_iff.mp ht⟩
  · intro hx
    obtain ⟨tables, hs, ht⟩ := hx
    obtain ⟨⟨_, tables'⟩, hs', rfl, htables⟩ := exists_of_forall₂ hm hs
    exact ⟨tables', hperm.mem_iff.mpr hs', htables.mem_iff.mpr ht⟩

namespace Catalog

/-- The table of the same names; numbers without a table go behind all tables. -/
def sameTable (c c' : Catalog) (t : TableId) : TableId :=
  match c.nameOf? t with
  | some x => (c'.findTable? x.1 x.2).getD 0
  | none => c'.tables.size + t

/-- The column at the same position of the same table. -/
def sameColumn (c c' : Catalog) (k : ColumnId) : ColumnId :=
  match c.columns[k]? with
  | some column =>
    let position := (c.columnsIn column.table).idxOf k
    ((c'.columnsIn (c.sameTable c' column.table))[position]?).getD 0
  | none => c'.columns.size + k

def describedColumn? (c : Catalog) (k : ColumnId) : Option ColumnDescription :=
  (c.columns[k]?).map fun column => ⟨column.name, column.isPrimaryKey⟩

namespace Orderly
variable {c c' : Catalog} {t : TableId} {x : Table} {schema name : String}
  {columns : List ColumnDescription}

theorem map_nameOf? (h : Orderly c) (t : TableId) :
    (c.nameOf? t).map (·.2) = c.tables[t]?.map (·.name) := by
  cases hx : c.tables[t]? with
  | none => simp [nameOf?, hx]
  | some x =>
    obtain ⟨owner, ho, _⟩ := h.filed.mem_tables hx
    rw [nameOf?_eq_some_iff.mpr ⟨x, owner, hx, ho, rfl, rfl⟩]
    rfl

theorem map_describedColumn? (h : Orderly c) (hx : c.tables[t]? = some x) :
    x.columns.map c.describedColumn? = (c.describedTable x).2.map some := by
  refine (map_some_filterMap fun k hk => ?_).symm
  obtain ⟨column, hcolumn, _⟩ := h.owned.listed t x hx k hk
  exact ⟨⟨column.name, column.isPrimaryKey⟩, by simp [describedColumn?, hcolumn]⟩

theorem nodup_columns (h : Orderly c) (hx : c.tables[t]? = some x) : x.columns.Nodup := by
  have hnodup : (c.tables.toList.flatMap (·.columns)).Nodup := by
    rw [h.filed.columns]
    exact List.nodup_range
  refine (List.nodup_flatMap.mp hnodup).1 x ?_
  rw [Array.mem_toList_iff]
  exact Array.mem_of_getElem? hx

theorem lists_iff (h : Orderly c) : c.described.Lists schema name columns ↔
    ∃ t x, c.nameOf? t = some (schema, name) ∧ c.tables[t]? = some x ∧
      (c.describedTable x).2 = columns := by
  constructor
  · intro hx
    obtain ⟨tables, hs, ht⟩ := hx
    obtain ⟨owner, ho, heq⟩ := List.mem_map.mp hs
    cases heq
    obtain ⟨t, hto, ht⟩ := List.mem_filterMap.mp ht
    obtain ⟨s, hs⟩ := List.mem_iff_getElem?.mp ho
    rw [Array.getElem?_toList] at hs
    obtain ⟨x, hx, rfl⟩ := h.filed.owned s owner hs t hto
    rw [hx] at ht
    cases ht
    exact ⟨t, x, nameOf?_eq_some_iff.mpr ⟨x, owner, hx, hs, rfl, rfl⟩, hx, rfl⟩
  · intro hx
    obtain ⟨t, x, hname, hx, rfl⟩ := hx
    obtain ⟨y, owner, hy, ho, rfl, rfl⟩ := nameOf?_eq_some_iff.mp hname
    rw [hx] at hy
    cases hy
    obtain ⟨owner', ho', hto⟩ := h.filed.mem_tables hx
    rw [ho] at ho'
    cases ho'
    refine ⟨(c.describedSchema owner).2, List.mem_map.mpr ⟨owner, ?_, rfl⟩,
      List.mem_filterMap.mpr ⟨t, hto, by rw [hx]; rfl⟩⟩
    rw [Array.mem_toList_iff]
    exact Array.mem_of_getElem? ho

/-! ## The same tables -/

section Same
variable (hc : Orderly c) (hc' : Orderly c') (h : c.described.SameContent c'.described)
include hc hc' h

/-- A table has its names in the other catalog too, and the same columns there. -/
theorem sameTable_spec (hname : c.nameOf? t = some (schema, name)) (hx : c.tables[t]? = some x) :
    c'.nameOf? (c.sameTable c' t) = some (schema, name) ∧
      ∃ x', c'.tables[c.sameTable c' t]? = some x' ∧
        (c'.describedTable x').2 = (c.describedTable x).2 := by
  have hlists := hc.lists_iff.mpr ⟨t, x, hname, hx, rfl⟩
  obtain ⟨t', x', hname', hx', hcolumns⟩ := hc'.lists_iff.mp (h.lists_iff.mp hlists)
  have hsame : c.sameTable c' t = t' := by
    unfold sameTable
    rw [hname]
    simp [hc'.findTable?_eq_some_iff.mpr hname']
  rw [hsame]
  exact ⟨hname', x', hx', hcolumns⟩

theorem nameOf?_sameTable (t : TableId) : c'.nameOf? (c.sameTable c' t) = c.nameOf? t := by
  cases hname : c.nameOf? t with
  | none =>
    have hsame : c.sameTable c' t = c'.tables.size + t := by simp [sameTable, hname]
    simp [nameOf?, hsame]
  | some names =>
    obtain ⟨x, _, hx, _⟩ := nameOf?_eq_some_iff.mp hname
    exact (sameTable_spec hc hc' h hname hx).1

theorem map_name_sameTable (t : TableId) :
    c'.tables[c.sameTable c' t]?.map (·.name) = c.tables[t]?.map (·.name) := by
  rw [← hc'.map_nameOf?, ← hc.map_nameOf?, nameOf?_sameTable hc hc' h]

theorem sameTable_injective : Function.Injective (c.sameTable c') := by
  intro t u htu
  have hnames : c.nameOf? t = c.nameOf? u := by
    rw [← nameOf?_sameTable hc hc' h t, htu, nameOf?_sameTable hc hc' h u]
  cases ht : c.nameOf? t with
  | none =>
    have hu : c.nameOf? u = none := hnames ▸ ht
    simpa [sameTable, ht, hu] using htu
  | some names =>
    have hfind := hc.findTable?_eq_some_iff.mpr ht
    rw [hc.findTable?_eq_some_iff.mpr (hnames ▸ ht)] at hfind
    cases hfind
    rfl

theorem findTable?_sameTable (schema name : String) :
    c'.findTable? schema name = (c.findTable? schema name).map (c.sameTable c') := by
  cases hfind : c.findTable? schema name with
  | some t =>
    have hname := hc.findTable?_eq_some_iff.mp hfind
    rw [← nameOf?_sameTable hc hc' h] at hname
    exact hc'.findTable?_eq_some_iff.mpr hname
  | none =>
    cases hfind' : c'.findTable? schema name with
    | none => rfl
    | some t' =>
      have hname' := hc'.findTable?_eq_some_iff.mp hfind'
      obtain ⟨x', _, hx', _⟩ := nameOf?_eq_some_iff.mp hname'
      have hlists := h.lists_iff.mpr (hc'.lists_iff.mpr ⟨t', x', hname', hx', rfl⟩)
      obtain ⟨t, _, hname, _⟩ := hc.lists_iff.mp hlists
      rw [hc.findTable?_eq_some_iff.mpr hname] at hfind
      cases hfind

/-! ## The same columns -/

/-- Column by column the two tables were described alike. -/
theorem columnsIn_described (t : TableId) :
    (c'.columnsIn (c.sameTable c' t)).map c'.describedColumn? =
      (c.columnsIn t).map c.describedColumn? := by
  cases hname : c.nameOf? t with
  | none =>
    have hsame : c.sameTable c' t = c'.tables.size + t := by simp [sameTable, hname]
    have hnone : c.tables[t]? = none := by simpa [hname] using (hc.map_nameOf? t).symm
    rw [columnsIn_of_none hnone, columnsIn_of_none (by simp [hsame])]
    rfl
  | some names =>
    obtain ⟨x, _, hx, _⟩ := nameOf?_eq_some_iff.mp hname
    obtain ⟨_, x', hx', hcolumns⟩ := sameTable_spec hc hc' h hname hx
    rw [columnsIn_of_table hx, columnsIn_of_table hx', hc.map_describedColumn? hx,
      hc'.map_describedColumn? hx', hcolumns]

theorem columnsIn_sameTable (t : TableId) :
    c'.columnsIn (c.sameTable c' t) = (c.columnsIn t).map (c.sameColumn c') := by
  have hlength : (c'.columnsIn (c.sameTable c' t)).length = (c.columnsIn t).length := by
    simpa using congrArg List.length (columnsIn_described hc hc' h t)
  refine List.ext_getElem (by simpa using hlength) fun i hi hi' => ?_
  rw [List.length_map] at hi'
  have hk := List.getElem_mem hi'
  obtain ⟨column, hcolumn, howner⟩ := hc.owned.listsColumn_iff.mp (mem_columnsIn_iff.mp hk)
  have hnodup : (c.columnsIn t).Nodup := by
    cases hx : c.tables[t]? with
    | none => simp [columnsIn_of_none hx]
    | some x => simpa [columnsIn_of_table hx] using hc.nodup_columns hx
  simp [sameColumn, hcolumn, howner, hnodup.idxOf_getElem i hi', hi]

theorem columns_sameColumn (k : ColumnId) : c'.columns[c.sameColumn c' k]? =
    c.columns[k]?.map fun column => { column with table := c.sameTable c' column.table } := by
  cases hcolumn : c.columns[k]? with
  | none =>
    have hsame : c.sameColumn c' k = c'.columns.size + k := by simp [sameColumn, hcolumn]
    simp [hsame]
  | some column =>
    -- `k` stands in the list of its table, and the two lists agree position by position
    obtain ⟨x, hx, hk⟩ := hc.owned.placed k column hcolumn
    have hmem : k ∈ c.columnsIn column.table := mem_columnsIn_iff.mpr ⟨x, hx, hk⟩
    have hsame := columnsIn_sameTable hc hc' h column.table
    have hmem' : c.sameColumn c' k ∈ c'.columnsIn (c.sameTable c' column.table) := by
      rw [hsame]
      exact List.mem_map_of_mem hmem
    obtain ⟨column', hcolumn', howner⟩ :=
      hc'.owned.listsColumn_iff.mp (mem_columnsIn_iff.mp hmem')
    have hdescribed := columnsIn_described hc hc' h column.table
    rw [hsame, List.map_map, List.map_inj_left] at hdescribed
    have hk' := hdescribed k hmem
    simp only [Function.comp_apply, describedColumn?, hcolumn, hcolumn', Option.map_some,
      Option.some.injEq, ColumnDescription.mk.injEq] at hk'
    rw [hcolumn', Option.map_some, ← howner, ← hk'.1, ← hk'.2]

/-- **Names renumber**: catalogs that were read with the same content hold the same under the
numbers of tables of the same names and of columns at the same positions. -/
theorem renumbers :
    c.Renumbers ⟨id, c.sameTable c', c.sameColumn c', id⟩ c' where
  injective := sameTable_injective hc hc' h
  names := map_name_sameTable hc hc' h
  fullName? t := by rw [fullName?_eq, fullName?_eq, nameOf?_sameTable hc hc' h]
  columnsOf? t := by
    have hname := map_name_sameTable hc hc' h t
    rw [columnsOf?_eq, columnsOf?_eq, columnsIn_sameTable hc hc' h]
    cases hx : c.tables[t]? <;> cases hx' : c'.tables[c.sameTable c' t]? <;> simp_all
  columns := columns_sameColumn hc hc' h
  findTable? := findTable?_sameTable hc hc' h

end Same

end Orderly

end Catalog

end VisualQuery
