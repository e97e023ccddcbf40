import VisualQuery.Text.Blank

/-!
The catalog: schemas, tables and columns. Each has a number, its position in order of
registration; tables and columns know their owner by its number, so that two tables of one name
in two schemas stay apart. Numbers may come from another catalog: a look-up that goes by the number
of a table gives nothing where the table is not there, apart from what it finds where it is.
-/

namespace VisualQuery

/-- The position of a schema in order of registration. -/
abbrev SchemaId := Nat

/-- The position of a table in order of registration, over all schemas. -/
abbrev TableId := Nat

/-- The position of a column in order of registration, over all tables. -/
abbrev ColumnId := Nat

structure Schema where
  name : String
  tables : List TableId
deriving DecidableEq, Repr

structure Table where
  name : String
  schema : SchemaId
  columns : List ColumnId
deriving DecidableEq, Repr

structure Column where
  name : String
  isPrimaryKey : Bool
  table : TableId
deriving DecidableEq, Repr

/-- All schemas, tables and columns, each at the position that is its number. -/
structure Catalog where
  schemas : Array Schema
  tables : Array Table
  columns : Array Column
deriving DecidableEq, Repr

namespace Catalog

def empty : Catalog := ⟨#[], #[], #[]⟩

/-! ### Registration -/

def addSchema (c : Catalog) (name : String) : Catalog :=
  { c with schemas := c.schemas.push ⟨name, []⟩ }

def addTable (c : Catalog) (schema : SchemaId) (name : String) : Catalog :=
  { c with
    schemas := c.schemas.modify schema fun s => { s with tables := s.tables ++ [c.tables.size] }
    tables := c.tables.push ⟨name, schema, []⟩ }

def addColumn (c : Catalog) (table : TableId) (name : String) (isPrimaryKey : Bool) : Catalog :=
  { c with
    tables := c.tables.modify table fun t => { t with columns := t.columns ++ [c.columns.size] }
    columns := c.columns.push ⟨name, isPrimaryKey, table⟩ }

/-! ### Look-ups by number -/

def columnsOf? (c : Catalog) (table : TableId) : Option (List ColumnId) :=
  c.tables[table]?.map (·.columns)

/-- The name of a table behind that of its schema. -/
def fullName? (c : Catalog) (table : TableId) : Option String := do
  let t ← c.tables[table]?
  let s ← c.schemas[t.schema]?
  pure (s.name ++ "." ++ t.name)

/-- The name of a column behind the full name of its table. -/
def path? (c : Catalog) (column : ColumnId) : Option String := do
  let col ← c.columns[column]?
  let owner ← c.fullName? col.table
  pure (owner ++ "." ++ col.name)

def primaryKeys? (c : Catalog) (table : TableId) : Option (List Column) := do
  let ids ← c.columnsOf? table
  pure ((ids.filterMap (c.columns[·]?)).filter (·.isPrimaryKey))

/-! ### Look-ups by name -/

/-- The first schema of a name. -/
def findSchema? (c : Catalog) (name : String) : Option SchemaId :=
  c.schemas.toList.findIdx? (·.name = name)

/-- The first table of a name in the first schema of a name. -/
def findTable? (c : Catalog) (schema table : String) : Option TableId := do
  let s ← c.schemas[← c.findSchema? schema]?
  s.tables.find? fun id => c.tables[id]?.any (·.name = table)

/-- The first column of a name in a table, if the table has one. -/
def findColumn? (c : Catalog) (table : TableId) (name : String) : Option (Option ColumnId) := do
  let ids ← c.columnsOf? table
  pure (ids.find? fun id => c.columns[id]?.any (·.name = name))

end Catalog

end VisualQuery
