import VisualQuery.Catalog.Basic
import VisualQuery.Join.Kind

/-!
Relationships between columns of placed tables, and the graph that holds them in the order in
which they were drawn. Instances are numbered in the order of placement, and every relationship
is kept with the earlier instance on side `a`, whichever way it was drawn. An operation that may be
refused gives its answer beside the graph behind it.
-/

namespace VisualQuery

abbrev InstanceId := Nat

/-- Instances are numbered by words of 32 bits, so that there are numbers for this many placements;
a natural number does the same as long as no more are placed. -/
def InstanceId.limit : Nat := UInt32.size

abbrev RelationshipId := Nat

/-- One side of a relationship: a column of a table as placed once. -/
structure Endpoint where
  place : InstanceId
  table : TableId
  column : ColumnId
deriving DecidableEq, Repr

structure Relationship where
  id : RelationshipId
  a : Endpoint
  b : Endpoint
  kind : JoinKind
deriving DecidableEq, Repr

namespace Relationship

/-- Whether either side is exactly this endpoint. -/
def touches (r : Relationship) (e : Endpoint) : Bool := r.a = e || r.b = e

def involves (r : Relationship) (i : InstanceId) : Bool := r.a.place = i || r.b.place = i

/-- Whether two relationships differ in nothing but their number. -/
def equivalent (r s : Relationship) : Bool := r.a = s.a && r.b = s.b && r.kind = s.kind

end Relationship

inductive GraphError where
  /-- Both sides lie on one instance. -/
  | sameInstance (place : InstanceId)
  | unknownRelationship (id : RelationshipId)
deriving DecidableEq, Repr

def GraphError.message : GraphError → String
  | .sameInstance place =>
    s!"Invalid relationship: both columns belong to table instance #{place}"
  | .unknownRelationship id => s!"Unknown relationship: #{id}"

structure Graph where
  relationships : List Relationship
  nextId : RelationshipId
deriving DecidableEq, Repr

namespace Graph

def empty : Graph := ⟨[], 0⟩

def add (g : Graph) (a b : Endpoint) (kind : JoinKind) : Except GraphError RelationshipId × Graph :=
  if a.place = b.place then (.error (.sameInstance a.place), g)
  else
    let (a, b) := if b.place < a.place then (b, a) else (a, b)
    (.ok g.nextId, ⟨g.relationships ++ [⟨g.nextId, a, b, kind⟩], g.nextId + 1⟩)

def removeTouching (g : Graph) (e : Endpoint) : Graph :=
  { g with relationships := g.relationships.filter fun r => !r.touches e }

def get? (g : Graph) (id : RelationshipId) : Option Relationship :=
  g.relationships.find? (·.id = id)

/-- The relationship of a number, which has to be there. -/
def get (g : Graph) (id : RelationshipId) : Except GraphError Relationship :=
  match g.get? id with
  | some r => .ok r
  | none => .error (.unknownRelationship id)

def remove (g : Graph) (id : RelationshipId) : Except GraphError Relationship × Graph :=
  match g.get id with
  | .ok r => (.ok r, { g with relationships := g.relationships.eraseP (·.id = id) })
  | .error e => (.error e, g)

/-- Changes the first relationship of a number. -/
def alter (change : Relationship → Relationship) (id : RelationshipId) :
    List Relationship → List Relationship
  | [] => []
  | r :: rest => if r.id = id then change r :: rest else r :: alter change id rest

def setKind (g : Graph) (id : RelationshipId) (kind : JoinKind) : Except GraphError Unit × Graph :=
  match g.get id with
  | .ok _ =>
    (.ok (), { g with relationships := alter (fun r => { r with kind := kind }) id g.relationships })
  | .error e => (.error e, g)

/-- Gives a relationship the next kind of the round, and answers that kind. -/
def cycleKind (g : Graph) (id : RelationshipId) : Except GraphError JoinKind × Graph :=
  match g.get id with
  | .ok r => (.ok r.kind.cycle, (g.setKind id r.kind.cycle).2)
  | .error e => (.error e, g)

def touching (g : Graph) (i : InstanceId) : List Relationship :=
  g.relationships.filter (·.involves i)

end Graph

/-- The endpoints of relationships in order, side `a` before side `b`. -/
def mentions (rs : List Relationship) : List Endpoint := rs.flatMap fun r => [r.a, r.b]

/-- Adds an endpoint unless one of its instance is there. -/
def addMention (seen : List Endpoint) (e : Endpoint) : List Endpoint :=
  if seen.any (·.place = e.place) then seen else seen ++ [e]

/-- The first endpoint of each instance, in order of first mention. -/
def firstMentions (rs : List Relationship) : List Endpoint := (mentions rs).foldl addMention []

def Graph.instances (g : Graph) : List InstanceId :=
  (firstMentions g.relationships).map (·.place)

end VisualQuery
