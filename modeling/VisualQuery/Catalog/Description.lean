import VisualQuery.Catalog.Basic
import VisualQuery.Json.Value

/-!
Descriptions of catalogs: named schemas of named tables of columns, as they are written down. A
description becomes a catalog if no name in it is blank. It is read from text, where schemas and
tables keep the order of the text, or from a value already read, where they are sorted by name.
-/

namespace VisualQuery

structure ColumnDescription where
  name : String
  isPrimaryKey : Bool
deriving DecidableEq, Repr

abbrev TableDescription := String × List ColumnDescription

abbrev SchemaDescription := String × List TableDescription

/-- Everything a catalog is to hold, by names alone. -/
abbrev Description := List SchemaDescription

inductive Level where
  | schema
  | table
  | column
deriving DecidableEq, Repr

def Level.word : Level → String
  | .schema => "schema"
  | .table => "table"
  | .column => "column"

inductive CatalogError where
  | unreadable (fault : Json.Fault)
  | blankName (level : Level)
deriving DecidableEq, Repr

def CatalogError.message : CatalogError → String
  | .unreadable fault => "Malformed catalog: " ++ fault.message
  | .blankName level => "Malformed catalog: empty " ++ level.word ++ " name"

/-! ### From descriptions to catalogs -/

namespace Catalog

def checkName (level : Level) (name : String) : Except CatalogError Unit :=
  if Text.blank name then .error (.blankName level) else .ok ()

def describeColumn (table : TableId) (c : Catalog) (d : ColumnDescription) :
    Except CatalogError Catalog := do
  checkName .column d.name
  pure (c.addColumn table d.name d.isPrimaryKey)

/-- Registers a described table and its columns; the table takes the next free number. -/
def describeTable (schema : SchemaId) (c : Catalog) (d : TableDescription) :
    Except CatalogError Catalog := do
  checkName .table d.1
  d.2.foldlM (describeColumn c.tables.size) (c.addTable schema d.1)

/-- Registers a described schema and all it holds; the schema takes the next free number. -/
def describeSchema (c : Catalog) (d : SchemaDescription) : Except CatalogError Catalog := do
  checkName .schema d.1
  d.2.foldlM (describeTable c.schemas.size) (c.addSchema d.1)

/-- Registers everything a description names, depth first; the first blank name ends it. -/
def ofDescription (d : Description) : Except CatalogError Catalog := d.foldlM describeSchema empty

end Catalog

/-! ### From catalogs to descriptions -/

namespace Catalog

def describedTable (c : Catalog) (t : Table) : TableDescription :=
  (t.name, t.columns.filterMap fun id =>
    (c.columns[id]?).map fun col => ⟨col.name, col.isPrimaryKey⟩)

def describedSchema (c : Catalog) (s : Schema) : SchemaDescription :=
  (s.name, s.tables.filterMap fun id => (c.tables[id]?).map c.describedTable)

/-- What a catalog holds, read back schema by schema and table by table. -/
def described (c : Catalog) : Description := c.schemas.toList.map c.describedSchema

end Catalog

/-! ### Keyed lists -/

/-- Puts a value under a key: a key that is there keeps its position and takes the new value. -/
def putEntry {α : Type} (entries : List (String × α)) (key : String) (value : α) :
    List (String × α) :=
  if entries.any (·.1 = key) then entries.map fun e => if e.1 = key then (key, value) else e
  else entries ++ [(key, value)]

/-- The entries with each key once, in order of first appearance, under its last value. -/
def lastOfEach {α : Type} (entries : List (String × α)) : List (String × α) :=
  entries.foldl (fun done e => putEntry done e.1 e.2) []

/-! ### Reading a description from text -/

namespace ColumnDescription

structure Draft where
  name : Option String
  isPrimaryKey : Option Bool

def keyFlagNames : List String := ["pk", "is_pk", "isPrimaryKey"]

def field (d : Draft) (key : String) : Except Json.Fault (Json.Node → Except Json.Fault Draft) :=
  if key = "name" then Json.once "name" d.name Json.Node.string fun s => { d with name := some s }
  else if keyFlagNames.contains key then
    Json.once "pk" d.isPrimaryKey Json.Node.boolean fun b => { d with isPrimaryKey := some b }
  else Json.passOver d

def shape : String := "struct RawColumn"

def listShape : String := "struct RawColumn with 2 elements"

/-- Reads a column, as an object or as the list of its two fields. -/
def ofNode : Json.Node → Except Json.Fault ColumnDescription
  | .list items => do
    let (name, items) ← items.nextOf listShape 0 Json.Node.string
    let (isPrimaryKey, items) ← items.nextOf listShape 1 Json.Node.boolean
    items.finish
    pure ⟨name, isPrimaryKey⟩
  | .object members => do
    let d ← members.fields field ⟨none, none⟩
    let name ← Json.require "name" d.name
    let isPrimaryKey ← Json.require "pk" d.isPrimaryKey
    pure ⟨name, isPrimaryKey⟩
  | node => .error (node.misfit shape)

end ColumnDescription

namespace Description

/-- Reads schemas and tables; a name that comes again replaces what it named. -/
def ofNode (node : Json.Node) : Except Json.Fault Description := do
  let columns := Json.Node.listOf ColumnDescription.ofNode
  let schemas ← node.entriesOf fun tables => lastOfEach <$> tables.entriesOf columns
  pure (lastOfEach schemas)

def ofText (text : String) : Except Json.Fault Description := (Json.Outline.scan text).read ofNode

end Description

/-! ### Reading a description from a value -/

namespace Json.Value

def misfit (v : Value) (expected : String) : Fault := .misfit (.wrongType v.found expected)

def asString : Value → Except Fault String
  | .text s => .ok s
  | v => .error (v.misfit "a string")

def asBoolean : Value → Except Fault Bool
  | .boolean b => .ok b
  | v => .error (v.misfit "a boolean")

def asList {α : Type} (reader : Value → Except Fault α) : Value → Except Fault (List α)
  | .list items => items.mapM reader
  | v => .error (v.misfit "a sequence")

def asEntries {α : Type} (reader : Value → Except Fault α) :
    Value → Except Fault (List (String × α))
  | .object members => members.mapM fun m => do pure (m.1, ← reader m.2)
  | v => .error (v.misfit "a map")

end Json.Value

namespace ColumnDescription

/-- Reads a member into the draft; in a value already read, unknown members are simply left. -/
def putMember (d : Draft) (member : String × Json.Value) : Except Json.Fault Draft :=
  if member.1 = "name" then
    match d.name with
    | some _ => .error (.misfit (.duplicateField "name"))
    | none => do pure { d with name := some (← member.2.asString) }
  else if keyFlagNames.contains member.1 then
    match d.isPrimaryKey with
    | some _ => .error (.misfit (.duplicateField "pk"))
    | none => do pure { d with isPrimaryKey := some (← member.2.asBoolean) }
  else .ok d

/-- Reads a column, as an object or as the list of its two fields. -/
def ofValue : Json.Value → Except Json.Fault ColumnDescription
  | .list [] => .error (.misfit (.wrongLength 0 listShape))
  | .list [name] => do
    let _ ← name.asString
    .error (.misfit (.wrongLength 1 listShape))
  | .list (name :: isPrimaryKey :: rest) => do
    let name ← name.asString
    let isPrimaryKey ← isPrimaryKey.asBoolean
    if rest.isEmpty then pure ⟨name, isPrimaryKey⟩
    else .error (.misfit (.wrongLength (rest.length + 2) "fewer elements in array"))
  | .object members => do
    let d ← members.foldlM putMember ⟨none, none⟩
    let name ← Json.require "name" d.name
    let isPrimaryKey ← Json.require "pk" d.isPrimaryKey
    pure ⟨name, isPrimaryKey⟩
  | v => .error (v.misfit shape)

end ColumnDescription

namespace Description

/-- Reads schemas and tables in the order of the value. -/
def ofValue (v : Json.Value) : Except Json.Fault Description :=
  v.asEntries fun tables => tables.asEntries fun columns => columns.asList ColumnDescription.ofValue

end Description

/-! ### Reading a catalog -/

namespace Catalog

def ofText (text : String) : Except CatalogError Catalog :=
  match Description.ofText text with
  | .error fault => .error (.unreadable fault)
  | .ok d => ofDescription d

def ofValue (v : Json.Value) : Except CatalogError Catalog :=
  match Description.ofValue v with
  | .error fault => .error (.unreadable fault)
  | .ok d => ofDescription d

end Catalog

end VisualQuery
