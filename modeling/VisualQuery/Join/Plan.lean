import VisualQuery.Join.Order

/-!
Join plans. A plan seeds FROM with the table of the first instance of a join order and joins the
other instances one by one; each step carries the relationships whose two instances are then
joined. If the walk along the edges gives an order with an instance that nothing before it is
related to, the plan is made from the walk both ways.

Every look-up on the way may miss, and then there is no result at all.
-/

namespace VisualQuery

structure JoinStep where
  place : InstanceId
  table : String
  kind : JoinKind
  conditions : List String
deriving DecidableEq, Repr

/-- The text of a step, which ends in a blank. -/
def JoinStep.text (s : JoinStep) : String :=
  s.kind.keyword ++ " JOIN " ++ s.table ++ " ON " ++ " AND ".intercalate s.conditions ++ " "

structure JoinPlan where
  order : List InstanceId
  seed : String
  steps : List JoinStep
deriving DecidableEq, Repr

/-- The FROM text: the seed and the steps, each ended by a blank. -/
def JoinPlan.source (p : JoinPlan) : String :=
  p.seed ++ " " ++ String.join (p.steps.map JoinStep.text)

/-- An instance that nothing before it in the join order is related to, and its table. -/
structure Stuck where
  table : String
  place : InstanceId
deriving DecidableEq, Repr

inductive PlanError where
  | noRelationships
  /-- A relationship has a column that is not in the catalog, or is in another table there. -/
  | foreignEndpoint (relationship : RelationshipId)
  | disconnected (stuck : Stuck)
deriving DecidableEq, Repr

def PlanError.message : PlanError → String
  | .noRelationships => "Cannot build a join plan: no relationships defined"
  | .foreignEndpoint id => s!"Relationship #{id} refers to a column outside this catalog"
  | .disconnected stuck =>
    s!"Table '{stuck.table}' (instance #{stuck.place}) is not connected to the rest of the " ++
      "join graph"

/-- Whether the catalog has the column of an endpoint in the table of the endpoint. -/
def Endpoint.resolves (catalog : Catalog) (e : Endpoint) : Bool :=
  match catalog.columns[e.column]? with
  | some column => column.table = e.table
  | none => false

def Relationship.resolves (catalog : Catalog) (r : Relationship) : Bool :=
  r.a.resolves catalog && r.b.resolves catalog

namespace JoinPlan

/-- Puts an element in front of the first one with no smaller key. -/
def insertByKey {α : Type} (x : Nat × α) : List (Nat × α) → List (Nat × α)
  | [] => [x]
  | y :: rest => if x.1 ≤ y.1 then x :: y :: rest else y :: insertByKey x rest

/-- Sorts by key; elements of one key keep their order. -/
def sortByKey {α : Type} (xs : List (Nat × α)) : List (Nat × α) := xs.foldr insertByKey []

/-- Relationships sorted by the position of their later instance in a join order. -/
def byLaterInstance? (order : List InstanceId) (rs : List Relationship) :
    Option (List Relationship) := do
  let keyed ← rs.mapM fun r => do
    let a ← order.idxOf? r.a.place
    let b ← order.idxOf? r.b.place
    pure (max a b, r)
  pure ((sortByKey keyed).map Prod.snd)

/-- The name of the table that an instance is first mentioned with. -/
def tableName? (catalog : Catalog) (nodes : List Endpoint) (i : InstanceId) : Option String := do
  let first ← nodes.find? (·.place = i)
  let table ← catalog.tables[first.table]?
  pure table.name

def condition? (catalog : Catalog) (r : Relationship) : Option String := do
  let a ← catalog.columns[r.a.column]?
  let b ← catalog.columns[r.b.column]?
  pure (a.name ++ " = " ++ b.name)

/-- Whether both instances of a relationship are among the joined ones. -/
def isReady (joined : List InstanceId) (r : Relationship) : Bool :=
  joined.contains r.a.place && joined.contains r.b.place

/-- Joins instances one by one to those joined before. Each takes along the pending
relationships that become ready with it, the first of which gives the kind of the join. -/
def steps? (catalog : Catalog) (nodes : List Endpoint) :
    List InstanceId → List InstanceId → List Relationship → Option (Except Stuck (List JoinStep))
  | _, [], _ => some (.ok [])
  | joined, i :: later, pending => do
    let joined := i :: joined
    let table ← tableName? catalog nodes i
    let (ready, rest) := pending.partition (isReady joined)
    match ready with
    | [] => pure (.error ⟨table, i⟩)
    | first :: _ => do
      let conditions ← ready.mapM (condition? catalog)
      match ← steps? catalog nodes joined later rest with
      | .error stuck => pure (.error stuck)
      | .ok steps => pure (.ok (⟨i, table, first.kind, conditions⟩ :: steps))

/-- The plan that follows a join order, or the instance it gets stuck at. -/
def alongOrder? (catalog : Catalog) (nodes : List Endpoint) (rs : List Relationship)
    (order : List InstanceId) : Option (Except Stuck JoinPlan) := do
  let pending ← byLaterInstance? order rs
  match order with
  | [] => none
  | first :: later => do
    let seed ← tableName? catalog nodes first
    match ← steps? catalog nodes [first] later pending with
    | .error stuck => pure (.error stuck)
    | .ok steps => pure (.ok ⟨order, seed, steps⟩)

def inDirection? (catalog : Catalog) (rs : List Relationship) (d : Direction) :
    Option (Except Stuck JoinPlan) := do
  let nodes := firstMentions rs
  let order ← joinOrder? d (nodes.map (·.place)) rs
  alongOrder? catalog nodes rs order

end JoinPlan

def Graph.plan? (g : Graph) (catalog : Catalog) : Option (Except PlanError JoinPlan) :=
  if g.relationships.isEmpty then some (.error .noRelationships)
  else match g.relationships.find? fun r => !r.resolves catalog with
    | some r => some (.error (.foreignEndpoint r.id))
    | none => do
      match ← JoinPlan.inDirection? catalog g.relationships .forward with
      | .ok plan => pure (.ok plan)
      | .error _ =>
        match ← JoinPlan.inDirection? catalog g.relationships .bothWays with
        | .ok plan => pure (.ok plan)
        | .error stuck => pure (.error (.disconnected stuck))

end VisualQuery
