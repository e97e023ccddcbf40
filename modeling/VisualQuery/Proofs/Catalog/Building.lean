import Mathlib.Data.List.TakeWhile
import VisualQuery.Proofs.Catalog.Naming

/-! # Building a catalog from a description

Names are looked at as they are registered, depth first, and the first blank one ends it
(`checks_ofDescription`). What was built reads back as the description, its numbers are positions
in it, and look-ups by name find what the description has under that name (`Represents`). -/

namespace VisualQuery

/-- A text is blank when trimming leaves nothing of it. -/
theorem Text.blank_iff_trim_eq_empty {s : String} : blank s = true ↔ trim s = "" := by
  have hdrop : trim s = "" ↔ ∀ c ∈ s.toList.dropWhile isBlank, isBlank c = true := by
    rw [trim, dropTrailing, String.ofList_eq_empty_iff, List.reverse_eq_nil_iff,
      List.dropWhile_eq_nil_iff]
    simp only [List.mem_reverse]
  rw [hdrop, blank, List.all_eq_true]
  constructor
  · exact fun h c hc => h c ((List.dropWhile_suffix isBlank).mem hc)
  · intro h
    cases hd : s.toList.dropWhile isBlank with
    | nil => exact List.dropWhile_eq_nil_iff.mp hd
    | cons c rest =>
      -- what is left begins with a character that is not blank
      have hc := List.head?_dropWhile_not isBlank s.toList
      rw [hd] at hc h
      have hb := h c (by simp)
      simp [hb] at hc

/-! ## The names of a description -/

def TableDescription.names (d : TableDescription) : List (Level × String) :=
  (.table, d.1) :: d.2.map fun x => (.column, x.name)

def SchemaDescription.names (d : SchemaDescription) : List (Level × String) :=
  (.schema, d.1) :: d.2.flatMap TableDescription.names

/-- All names with their levels, depth first. -/
def Description.names (d : Description) : List (Level × String) := d.flatMap SchemaDescription.names

/-- `level` is the level of the first name that trimming empties. -/
def FirstBlank (names : List (Level × String)) (level : Level) : Prop :=
  ∃ before name after, names = before ++ (level, name) :: after ∧ Text.trim name = "" ∧
    ∀ x ∈ before, Text.trim x.2 ≠ ""

/-- What comes of a step that looks at names in order: it is refused at the first blank one, and
carried out if there is none. -/
def Checks {α : Type} (names : List (Level × String)) (x : Except CatalogError α) : Prop :=
  match names.find? fun n => Text.blank n.2 with
  | some n => x = .error (.blankName n.1)
  | none => ∃ c, x = .ok c

namespace Checks
variable {α β : Type} {names more : List (Level × String)} {x : Except CatalogError α}

theorem iff_decided : Checks names x ↔
    Decided (Text.trim ·.2 ≠ "") (.blankName ·.1) (fun _ => True) names x := by
  unfold Checks
  constructor
  · intro h
    split at h
    · next n hn =>
      obtain ⟨hblank, before, after, rfl, hbefore⟩ := List.find?_eq_some_iff_append.mp hn
      rw [h]
      refine .failed (fun y hy => ?_) (not_not.mpr (Text.blank_iff_trim_eq_empty.mp hblank))
      simpa [← Text.blank_iff_trim_eq_empty] using hbefore y hy
    · next hn =>
      obtain ⟨c, rfl⟩ := h
      refine .passed (fun n hmem => ?_) trivial
      simpa [← Text.blank_iff_trim_eq_empty] using List.find?_eq_none.mp hn n hmem
  · intro h
    cases h with
    | passed hall _ =>
      have hn : names.find? (fun n => Text.blank n.2) = none :=
        List.find?_eq_none.mpr fun n hmem => by
          simpa [Text.blank_iff_trim_eq_empty] using hall n hmem
      rw [hn]
      exact ⟨_, rfl⟩
    | @failed before after n hbefore hblank =>
      have hn : (before ++ n :: after).find? (fun n => Text.blank n.2) = some n :=
        List.find?_eq_some_iff_append.mpr
          ⟨Text.blank_iff_trim_eq_empty.mpr (not_not.mp hblank), before, after, rfl,
            fun y hy => by simpa [← Bool.not_eq_true, Text.blank_iff_trim_eq_empty] using hbefore y hy⟩
      rw [hn]

theorem bind {f : α → Except CatalogError β} (h : Checks names x) (hf : ∀ c, Checks more (f c)) :
    Checks (names ++ more) (x >>= f) :=
  iff_decided.mpr ((iff_decided.mp h).bind fun c _ => iff_decided.mp (hf c))

theorem foldlM {names : β → List (Level × String)} {step : α → β → Except CatalogError α}
    (h : ∀ c d, Checks (names d) (step c d)) (l : List β) (c : α) :
    Checks (l.flatMap names) (l.foldlM step c) :=
  iff_decided.mpr (Decided.foldlM (fun s d _ => iff_decided.mp (h s d)) l trivial)

theorem exists_ok_iff (h : Checks names x) :
    (∃ c, x = .ok c) ↔ ∀ n ∈ names, Text.trim n.2 ≠ "" :=
  (iff_decided.mp h).exists_ok_iff

theorem eq_error_iff (h : Checks names x) {e : CatalogError} :
    x = .error e ↔ ∃ level, FirstBlank names level ∧ e = .blankName level := by
  rw [(iff_decided.mp h).eq_error_iff]
  constructor
  · intro hx
    obtain ⟨before, n, after, hnames, hbefore, hblank, rfl⟩ := hx
    exact ⟨n.1, ⟨before, n.2, after, hnames, not_not.mp hblank, hbefore⟩, rfl⟩
  · intro hx
    obtain ⟨level, ⟨before, name, after, hnames, hblank, hbefore⟩, rfl⟩ := hx
    exact ⟨before, (level, name), after, hnames, hbefore, not_not.mpr hblank, rfl⟩

end Checks

namespace Catalog
variable {c : Catalog}

theorem checks_checkName (level : Level) (name : String) :
    Checks [(level, name)] (checkName level name) := by
  cases hb : Text.blank name <;> simp [Checks, checkName, hb]

theorem checks_describeColumn (t : TableId) (c : Catalog) (d : ColumnDescription) :
    Checks [(.column, d.name)] (describeColumn t c d) := by
  have hadd : Checks [] (Except.ok (c.addColumn t d.name d.isPrimaryKey)) := ⟨_, rfl⟩
  exact (checks_checkName .column d.name).bind fun _ => hadd

theorem checks_describeTable (s : SchemaId) (c : Catalog) (d : TableDescription) :
    Checks d.names (describeTable s c d) := by
  have hcolumns := Checks.foldlM (checks_describeColumn c.tables.size) d.2 (c.addTable s d.1)
  rw [← List.map_eq_flatMap] at hcolumns
  exact (checks_checkName .table d.1).bind fun _ => hcolumns

theorem checks_describeSchema (c : Catalog) (d : SchemaDescription) :
    Checks d.names (describeSchema c d) :=
  (checks_checkName .schema d.1).bind fun _ =>
    Checks.foldlM (checks_describeTable c.schemas.size) d.2 (c.addSchema d.1)

/-- **Names are looked at depth first**, and the first blank one ends the building. -/
theorem checks_ofDescription (d : Description) : Checks d.names (ofDescription d) :=
  Checks.foldlM checks_describeSchema d empty

/-! ## What was built -/

def ListsTable (c : Catalog) (s : SchemaId) (t : TableId) : Prop :=
  ∃ schema, c.schemas[s]? = some schema ∧ t ∈ schema.tables

def describedColumn (column : Column) : ColumnDescription := ⟨column.name, column.isPrimaryKey⟩

/-- What a catalog is to the description it was built from. -/
structure Represents (c : Catalog) (d : Description) : Prop where
  /-- Schema by schema it reads back as the description. -/
  described : c.described = d
  /-- The number of a table is its position, depth first. -/
  tables : c.tables.toList.map c.describedTable = d.flatMap (·.2)
  /-- The number of a column is its position, depth first. -/
  columns : c.columns.toList.map describedColumn = (d.flatMap (·.2)).flatMap (·.2)
  /-- The lists of the schemas hold each number of a table once, in order. -/
  listedTables : c.schemas.toList.flatMap (·.tables) = List.range c.tables.size
  /-- The lists of the tables hold each number of a column once, in order. -/
  listedColumns : c.tables.toList.flatMap (·.columns) = List.range c.columns.size
  tableOwner : ∀ (t : TableId) (table : Table), c.tables[t]? = some table →
    ∀ s, c.ListsTable s t ↔ s = table.schema
  columnOwner : ∀ (k : ColumnId) (column : Column), c.columns[k]? = some column →
    ∀ t, c.ListsColumn t k ↔ t = column.table
  findSchema? : ∀ name s, c.findSchema? name = some s ↔
    (c.schemas[s]?).map (·.name) = some name
  findTable? : ∀ schema name t, c.findTable? schema name = some t ↔
    c.nameOf? t = some (schema, name)
  /-- The first column of a name is found. -/
  findColumn? : ∀ (t : TableId) (table : Table) (name : String), c.tables[t]? = some table →
    c.findColumn? t name =
      some (((c.describedTable table).2.findIdx? (·.name = name)).bind (table.columns[·]?))

theorem filterMap_range {α β : Type} (f : α → β) (xs : Array α) :
    (List.range xs.size).filterMap (fun k => xs[k]?.map f) = xs.toList.map f := by
  have h := filterMap_range'_append f xs.toList #[]
  simpa [List.range_eq_range'] using h

namespace Filed

theorem map_tables (h : Filed c) :
    c.tables.toList.map c.describedTable = c.described.flatMap (·.2) := by
  calc c.tables.toList.map c.describedTable
      = (List.range c.tables.size).filterMap fun t => (c.tables[t]?).map c.describedTable :=
        (filterMap_range _ _).symm
    _ = c.schemas.toList.flatMap fun s => (c.describedSchema s).2 := by
        rw [← h.tables, List.filterMap_flatMap]
        rfl
    _ = c.described.flatMap (·.2) := by rw [described, List.flatMap_map]

theorem map_columns (h : Filed c) :
    c.columns.toList.map describedColumn = (c.described.flatMap (·.2)).flatMap (·.2) := by
  calc c.columns.toList.map describedColumn
      = (List.range c.columns.size).filterMap fun k => (c.columns[k]?).map describedColumn :=
        (filterMap_range _ _).symm
    _ = c.tables.toList.flatMap fun t => (c.describedTable t).2 := by
        rw [← h.columns, List.filterMap_flatMap]
        rfl
    _ = (c.described.flatMap (·.2)).flatMap (·.2) := by rw [← h.map_tables, List.flatMap_map]

end Filed

namespace Orderly
variable {t : TableId} {table : Table}

theorem listsTable_iff (h : Orderly c) (ht : c.tables[t]? = some table) (s : SchemaId) :
    c.ListsTable s t ↔ s = table.schema := by
  constructor
  · intro hx
    obtain ⟨schema, hs, hm⟩ := hx
    obtain ⟨table', ht', hschema⟩ := h.filed.owned s schema hs t hm
    rw [ht] at ht'
    cases ht'
    exact hschema.symm
  · rintro rfl
    exact h.filed.mem_tables ht

theorem listsColumn_iff (h : Orderly c) {k : ColumnId} {column : Column}
    (hk : c.columns[k]? = some column) (t : TableId) : c.ListsColumn t k ↔ t = column.table := by
  rw [h.owned.listsColumn_iff, hk]
  simp [eq_comm]

theorem findSchema?_eq_some_iff (h : Orderly c) {name : String} {s : SchemaId} :
    c.findSchema? name = some s ↔ (c.schemas[s]?).map (·.name) = some name := by
  constructor
  · intro hs
    obtain ⟨hlt, hname, _⟩ := List.findIdx?_eq_some_iff_getElem.mp hs
    rw [Array.length_toList] at hlt
    rw [Array.getElem?_eq_getElem hlt]
    simpa using hname
  · intro hs
    obtain ⟨owner, ho, rfl⟩ := Option.map_eq_some_iff.mp hs
    exact h.findSchema?_eq ho

/-- The columns of a table read back at the positions of their numbers. -/
theorem findColumn?_eq (h : Orderly c) (ht : c.tables[t]? = some table) (name : String) :
    c.findColumn? t name =
      some (((c.describedTable table).2.findIdx? (·.name = name)).bind (table.columns[·]?)) := by
  have hfind : ∀ l : List ColumnId, (∀ k ∈ l, ∃ column : Column, c.columns[k]? = some column) →
      l.find? (fun k => c.columns[k]?.any (·.name = name)) =
        ((l.filterMap fun k => (c.columns[k]?).map describedColumn).findIdx?
          (·.name = name)).bind (l[·]?) := by
    intro l hl
    induction l with
    | nil => rfl
    | cons k rest ih =>
      obtain ⟨column, hk⟩ := hl k (by simp)
      rw [List.filterMap_cons_some (by rw [hk, Option.map_some]), List.findIdx?_cons]
      by_cases hname : column.name = name
      · rw [List.find?_cons_of_pos (by simp [hk, hname]), if_pos (by simp [describedColumn, hname])]
        rfl
      · rw [List.find?_cons_of_neg (by simp [hk, hname]),
          if_neg (by simp [describedColumn, hname]), Option.bind_map,
          ih fun j hj => hl j (List.mem_cons_of_mem _ hj)]
        rfl
  have hcolumns := hfind table.columns fun k hk => by
    obtain ⟨column, hcolumn, _⟩ := h.owned.listed t table ht k hk
    exact ⟨column, hcolumn⟩
  rw [findColumn?_of_table ht, columnsIn_of_table ht, hcolumns]
  rfl

end Orderly

theorem represents_ofDescription {d : Description} (hd : d.Distinct)
    (h : ofDescription d = .ok c) : c.Represents d := by
  have horderly := orderly_ofDescription hd h
  obtain ⟨hfiled, rfl⟩ := filed_ofDescription h
  exact {
    described := rfl
    tables := hfiled.map_tables
    columns := hfiled.map_columns
    listedTables := hfiled.tables
    listedColumns := hfiled.columns
    tableOwner := fun _ _ ht => horderly.listsTable_iff ht
    columnOwner := fun _ _ hk => horderly.listsColumn_iff hk
    findSchema? := fun _ _ => horderly.findSchema?_eq_some_iff
    findTable? := fun _ _ _ => horderly.findTable?_eq_some_iff
    findColumn? := fun _ _ name ht => horderly.findColumn?_eq ht name }

/-- No column that was read has a blank name. -/
theorem Built.not_blank (h : Built c) {k : ColumnId} {column : Column}
    (hk : c.columns[k]? = some column) : Text.blank column.name = false := by
  obtain ⟨d, hd⟩ := h.exists_description
  obtain ⟨hfiled, rfl⟩ := filed_ofDescription hd
  have hcolumn : column ∈ c.columns.toList := List.mem_of_getElem? (Array.getElem?_toList ▸ hk)
  have hlisted : describedColumn column ∈ (c.described.flatMap (·.2)).flatMap (·.2) :=
    hfiled.map_columns ▸ List.mem_map_of_mem hcolumn
  obtain ⟨table, ht, hmem⟩ := List.mem_flatMap.mp hlisted
  obtain ⟨schema, hs, ht⟩ := List.mem_flatMap.mp ht
  have htable : (Level.column, column.name) ∈ table.names :=
    List.mem_cons_of_mem _ (List.mem_map.mpr ⟨_, hmem, rfl⟩)
  have hschema : (Level.column, column.name) ∈ schema.names :=
    List.mem_cons_of_mem _ (List.mem_flatMap.mpr ⟨table, ht, htable⟩)
  have hname : (Level.column, column.name) ∈ c.described.names :=
    List.mem_flatMap.mpr ⟨schema, hs, hschema⟩
  have htrim := (checks_ofDescription c.described).exists_ok_iff.mp ⟨c, hd⟩ _ hname
  simpa [← Text.blank_iff_trim_eq_empty] using htrim

/-- **A catalog is built from every description without blank names**, and it represents the
description; otherwise the level of the first blank name is told. -/
theorem ofDescription_decided (d : Description) (hd : d.Distinct) :
    ((∃ c, ofDescription d = .ok c) ↔ ∀ x ∈ d.names, Text.trim x.2 ≠ "") ∧
    (∀ e, ofDescription d = .error e ↔
      ∃ level, FirstBlank d.names level ∧ e = .blankName level) ∧
    ∀ c, ofDescription d = .ok c → c.Represents d :=
  ⟨(checks_ofDescription d).exists_ok_iff, fun _ => (checks_ofDescription d).eq_error_iff,
    fun _ h => represents_ofDescription hd h⟩

/-- Orders of this year and of the last, with a column name that comes twice in one table. -/
def twoYears : Description :=
  [("now", [("orders", [⟨"id", true⟩, ⟨"note", false⟩, ⟨"note", true⟩])]),
    ("last", [("empty", []), ("orders", [⟨"id", true⟩])])]

/-- Of the two columns of one name the first is found. -/
theorem ofDescription_decided_twoYears : twoYears.Distinct ∧
    (∀ x ∈ twoYears.names, Text.trim x.2 ≠ "") ∧
    ∃ c, ofDescription twoYears = .ok c ∧ c.Represents twoYears ∧
      c.findTable? "last" "orders" = some 2 ∧ c.findColumn? 0 "note" = some (some 1) := by
  have hd : twoYears.Distinct := ⟨by decide, by decide⟩
  obtain ⟨hok, _, hbuilt⟩ := ofDescription_decided twoYears hd
  have h : ∃ c, ofDescription twoYears = .ok c := ⟨_, rfl⟩
  exact ⟨hd, hok.mp h, _, rfl, hbuilt _ rfl, by decide, by decide⟩

end Catalog

end VisualQuery
