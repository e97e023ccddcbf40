import VisualQuery.Join.Graph

/-!
The canvas: tables of one catalog placed on it, and the relationships drawn between them. A table
may be placed several times; every placement is an instance of its own, and its number is never
given out again. Removing a placement removes what was drawn to its columns.

Any number can be placed, also one that the catalog has no table for. What looks for the columns of
such a placement has no answer, which ends the program; the canvas behind the call is the one that
it was working on.
-/

namespace VisualQuery

structure Placement where
  place : InstanceId
  table : TableId
deriving DecidableEq, Repr

/-- A catalog, what is placed of it in order of placement, and what is drawn between. -/
structure Canvas where
  catalog : Catalog
  placements : List Placement
  nextInstance : InstanceId
  graph : Graph
deriving DecidableEq, Repr

inductive CanvasError where
  | unknownInstance (place : InstanceId)
  | unknownColumn (table column : String)
  | graph (cause : GraphError)
deriving DecidableEq, Repr

def CanvasError.message : CanvasError → String
  | .unknownInstance place => s!"Unknown table instance: #{place}"
  | .unknownColumn table column => s!"Unknown column '{column}' on table '{table}'"
  | .graph cause => cause.message

namespace Canvas

def blank (catalog : Catalog) : Canvas := ⟨catalog, [], 0, .empty⟩

/-- Places a table and gives the number of the instance, which is good up to `InstanceId.limit`. -/
def place (c : Canvas) (table : TableId) : InstanceId × Canvas :=
  (c.nextInstance,
    { c with placements := c.placements ++ [⟨c.nextInstance, table⟩]
             nextInstance := c.nextInstance + 1 })

def placement (c : Canvas) (i : InstanceId) : Except CanvasError Placement :=
  match c.placements.find? (·.place = i) with
  | some p => .ok p
  | none => .error (.unknownInstance i)

/-- Removes a placement, and column by column every relationship drawn to it. -/
def remove (c : Canvas) (i : InstanceId) : Option (Except CanvasError Placement) × Canvas :=
  match c.placement i with
  | .error e => (some (.error e), c)
  | .ok p =>
    -- the placement is taken out before its columns are looked up
    let c := { c with placements := c.placements.eraseP (·.place = i) }
    match c.catalog.columnsOf? p.table with
    | none => (none, c)
    | some columns =>
      let graph := columns.foldl (fun g column => g.removeTouching ⟨i, p.table, column⟩) c.graph
      (some (.ok p), { c with graph := graph })

def endpoint (c : Canvas) (i : InstanceId) (column : String) :
    Option (Except CanvasError Endpoint) :=
  match c.placement i with
  | .error e => some (.error e)
  | .ok p => do
    match ← c.catalog.findColumn? p.table column with
    | some id => pure (.ok ⟨i, p.table, id⟩)
    | none => pure (.error (.unknownColumn (← c.catalog.fullName? p.table) column))

/-- The endpoints at named columns of two instances. The second is looked for only if the first
one is there. -/
def sides (c : Canvas) (a b : InstanceId × String) :
    Option (Except CanvasError (Endpoint × Endpoint)) := do
  match ← c.endpoint a.1 a.2 with
  | .error e => pure (.error e)
  | .ok a =>
    match ← c.endpoint b.1 b.2 with
    | .error e => pure (.error e)
    | .ok b => pure (.ok (a, b))

def connect (c : Canvas) (a b : InstanceId × String) (kind : JoinKind) :
    Option (Except CanvasError RelationshipId) × Canvas :=
  match c.sides a b with
  | none => (none, c)
  | some (.error e) => (some (.error e), c)
  | some (.ok (a, b)) =>
    match c.graph.add a b kind with
    | (.ok id, graph) => (some (.ok id), { c with graph := graph })
    | (.error cause, graph) => (some (.error (.graph cause)), { c with graph := graph })

def unrelated (c : Canvas) : List InstanceId :=
  (c.placements.map (·.place)).filter fun i => !c.graph.instances.contains i

end Canvas

end VisualQuery
