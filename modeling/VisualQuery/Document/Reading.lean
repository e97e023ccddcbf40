import VisualQuery.Document.Basic

/-!
Reading documents from text. Each record may be written as an object or as the list of its
fields; in a list, fields with a default may be left off the end.
-/

namespace VisualQuery

open Json (Fault Node)

namespace SavedTable

structure Draft where
  schema : Option String
  table : Option String

def field (d : Draft) (key : String) : Except Fault (Node → Except Fault Draft) :=
  if key = "schema" then Json.once key d.schema Node.string fun s => { d with schema := some s }
  else if key = "table" then Json.once key d.table Node.string fun s => { d with table := some s }
  else Json.passOver d

def listShape : String := "struct Placement with 2 elements"

def ofNode : Node → Except Fault SavedTable
  | .list items => do
    let (schema, items) ← items.nextOf listShape 0 Node.string
    let (table, items) ← items.nextOf listShape 1 Node.string
    items.finish
    pure ⟨schema, table⟩
  | .object members => do
    let d ← members.fields field ⟨none, none⟩
    let schema ← Json.require "schema" d.schema
    let table ← Json.require "table" d.table
    pure ⟨schema, table⟩
  | node => .error (node.misfit "struct Placement")

end SavedTable

namespace SavedColumn

structure Draft where
  position : Option Nat
  column : Option String

def field (d : Draft) (key : String) : Except Fault (Node → Except Fault Draft) :=
  if key = "table" then Json.once key d.position Node.count fun n => { d with position := some n }
  else if key = "column" then
    Json.once key d.column Node.string fun s => { d with column := some s }
  else Json.passOver d

def listShape : String := "struct ColumnRef with 2 elements"

def ofNode : Node → Except Fault SavedColumn
  | .list items => do
    let (position, items) ← items.nextOf listShape 0 Node.count
    let (column, items) ← items.nextOf listShape 1 Node.string
    items.finish
    pure ⟨position, column⟩
  | .object members => do
    let d ← members.fields field ⟨none, none⟩
    let position ← Json.require "table" d.position
    let column ← Json.require "column" d.column
    pure ⟨position, column⟩
  | node => .error (node.misfit "struct ColumnRef")

end SavedColumn

namespace SavedRelationship

structure Draft where
  a : Option SavedColumn
  b : Option SavedColumn
  kind : Option (Option JoinKind)

/-- Reads a kind, or null for none. -/
def kindOfNode : Node → Except Fault (Option JoinKind) :=
  Node.optional (Node.oneOf JoinKind.savedNames)

def field (d : Draft) (key : String) : Except Fault (Node → Except Fault Draft) :=
  if key = "a" then Json.once key d.a SavedColumn.ofNode fun e => { d with a := some e }
  else if key = "b" then Json.once key d.b SavedColumn.ofNode fun e => { d with b := some e }
  else if key = "kind" then Json.once key d.kind kindOfNode fun k => { d with kind := some k }
  else Json.passOver d

def listShape : String := "struct RelationshipEntry with 3 elements"

def ofNode : Node → Except Fault SavedRelationship
  | .list items => do
    let (a, items) ← items.nextOf listShape 0 SavedColumn.ofNode
    let (b, items) ← items.nextOf listShape 1 SavedColumn.ofNode
    let (kind, items) ← items.next kindOfNode
    items.finish
    pure ⟨a, b, kind.join⟩
  | .object members => do
    let d ← members.fields field ⟨none, none, none⟩
    let a ← Json.require "a" d.a
    let b ← Json.require "b" d.b
    pure ⟨a, b, d.kind.join⟩
  | node => .error (node.misfit "struct RelationshipEntry")

end SavedRelationship

namespace SavedGridColumn

structure Draft where
  position : Option Nat
  column : Option String
  name : Option (Option String)
  aggregate : Option (Option Aggregate)
  sort : Option SortDirection
  visible : Option Bool
  criteria : Option (List String)

/-- Reads a name, or null for none. -/
def nameOfNode : Node → Except Fault (Option String) := Node.optional Node.string

/-- Reads an aggregate, or null for none. -/
def aggregateOfNode : Node → Except Fault (Option Aggregate) :=
  Node.optional (Node.oneOf Aggregate.savedNames)

def sortOfNode : Node → Except Fault SortDirection := Node.oneOf SortDirection.savedNames

def criteriaOfNode : Node → Except Fault (List String) := Node.listOf Node.string

def field (d : Draft) (key : String) : Except Fault (Node → Except Fault Draft) :=
  if key = "table" then Json.once key d.position Node.count fun n => { d with position := some n }
  else if key = "column" then
    Json.once key d.column Node.string fun s => { d with column := some s }
  else if key = "name" then Json.once key d.name nameOfNode fun s => { d with name := some s }
  else if key = "aggregate" then
    Json.once key d.aggregate aggregateOfNode fun a => { d with aggregate := some a }
  else if key = "sort" then Json.once key d.sort sortOfNode fun s => { d with sort := some s }
  else if key = "visible" then
    Json.once key d.visible Node.boolean fun b => { d with visible := some b }
  else if key = "criteria" then
    Json.once key d.criteria criteriaOfNode fun c => { d with criteria := some c }
  else Json.passOver d

/-- The grid column of a draft: unless said otherwise it is unsorted, visible and has no
criteria. -/
def ofDraft (position : Nat) (column : String) (d : Draft) : SavedGridColumn where
  source := ⟨position, column⟩
  name := d.name.join
  aggregate := d.aggregate.join
  sort := d.sort.getD .none
  visible := d.visible.getD true
  criteria := d.criteria.getD []

def listShape : String := "struct ColumnEntry with 7 elements"

def ofNode : Node → Except Fault SavedGridColumn
  | .list items => do
    let (position, items) ← items.nextOf listShape 0 Node.count
    let (column, items) ← items.nextOf listShape 1 Node.string
    let (name, items) ← items.next nameOfNode
    let (aggregate, items) ← items.next aggregateOfNode
    let (sort, items) ← items.next sortOfNode
    let (visible, items) ← items.next Node.boolean
    let (criteria, items) ← items.next criteriaOfNode
    items.finish
    pure (ofDraft position column
      ⟨some position, some column, name, aggregate, sort, visible, criteria⟩)
  | .object members => do
    let d ← members.fields field ⟨none, none, none, none, none, none, none⟩
    let position ← Json.require "table" d.position
    let column ← Json.require "column" d.column
    pure (ofDraft position column d)
  | node => .error (node.misfit "struct ColumnEntry")

end SavedGridColumn

namespace Document

structure Draft where
  catalog : Option Json.Value
  tables : Option (List SavedTable)
  relationships : Option (List SavedRelationship)
  columns : Option (List SavedGridColumn)
  totals : Option (Option Bool)

/-- Reads the catalog description inside a document, which is one open container itself. -/
def catalogOfNode : Node → Except Fault Json.Value := Node.value (Json.maxDepth - 1)

def tablesOfNode : Node → Except Fault (List SavedTable) := Node.listOf SavedTable.ofNode

def relationshipsOfNode : Node → Except Fault (List SavedRelationship) :=
  Node.listOf SavedRelationship.ofNode

def columnsOfNode : Node → Except Fault (List SavedGridColumn) :=
  Node.listOf SavedGridColumn.ofNode

/-- Reads whether totals are on, or null for no word on it. -/
def totalsOfNode : Node → Except Fault (Option Bool) := Node.optional Node.boolean

def field (d : Draft) (key : String) : Except Fault (Node → Except Fault Draft) :=
  if key = "catalog" then
    Json.once key d.catalog catalogOfNode fun v => { d with catalog := some v }
  else if key = "tables" then
    Json.once key d.tables tablesOfNode fun ts => { d with tables := some ts }
  else if key = "relationships" then
    Json.once key d.relationships relationshipsOfNode fun rs => { d with relationships := some rs }
  else if key = "columns" then
    Json.once key d.columns columnsOfNode fun cs => { d with columns := some cs }
  else if key = "totals" then
    Json.once key d.totals totalsOfNode fun b => { d with totals := some b }
  else Json.passOver d

/-- The document of a draft: lists that are not given are empty. -/
def ofDraft (catalog : Json.Value) (d : Draft) : Document where
  catalog := catalog
  tables := d.tables.getD []
  relationships := d.relationships.getD []
  columns := d.columns.getD []
  totals := d.totals.join

def listShape : String := "struct QueryDocument with 5 elements"

def ofNode : Node → Except Fault Document
  | .list items => do
    let (catalog, items) ← items.nextOf listShape 0 catalogOfNode
    let (tables, items) ← items.next tablesOfNode
    let (relationships, items) ← items.next relationshipsOfNode
    let (columns, items) ← items.next columnsOfNode
    let (totals, items) ← items.next totalsOfNode
    items.finish
    pure (ofDraft catalog ⟨some catalog, tables, relationships, columns, totals⟩)
  | .object members => do
    let d ← members.fields field ⟨none, none, none, none, none⟩
    let catalog ← Json.require "catalog" d.catalog
    pure (ofDraft catalog d)
  | node => .error (node.misfit "struct QueryDocument")

def ofText (text : String) : Except Fault Document := (Json.Outline.scan text).read ofNode

end Document

end VisualQuery
