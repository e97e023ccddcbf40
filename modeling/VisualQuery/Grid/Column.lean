import VisualQuery.Join.Graph

/-!
The columns of the query grid. A grid column has a display name, an aggregate, a sort direction,
a visibility and criteria, and contributes to each clause of the statement. While totals are on,
a column with an aggregate function goes by the name of the function applied to it, except in the
sort clause.
-/

namespace VisualQuery

/-- What is computed of a column when totals are on. -/
inductive Aggregate where
  | none
  | groupBy
  | count
  | avg
  | max
  | min
  | stddev
  | sum
deriving DecidableEq, Repr

namespace Aggregate

def word : Aggregate → String
  | .none => "none"
  | .groupBy => "group by"
  | .count => "count"
  | .avg => "avg"
  | .max => "max"
  | .min => "min"
  | .stddev => "stddev"
  | .sum => "sum"

def function? : Aggregate → Option String
  | .none | .groupBy => Option.none
  | a => some a.word

def savedNames : List (String × Aggregate) :=
  [("none", .none), ("group by", .groupBy), ("group-by", .groupBy), ("group_by", .groupBy),
    ("count", .count), ("avg", .avg), ("max", .max), ("min", .min), ("stddev", .stddev),
    ("sum", .sum)]

/-- Reads an aggregate typed by hand, where nothing means none; the refusal is a message. -/
def ofKeyword (s : String) : Except String Aggregate :=
  match Text.lowerKeyword s with
  | "" => .ok .none
  | name => match savedNames.lookup name with
    | some a => .ok a
    | Option.none => .error s!"unknown aggregate '{name}'"

end Aggregate

inductive SortDirection where
  | none
  | ascending
  | descending
deriving DecidableEq, Repr

namespace SortDirection

def keyword? : SortDirection → Option String
  | .none => Option.none
  | .ascending => some "asc"
  | .descending => some "desc"

def savedNames : List (String × SortDirection) :=
  [("none", .none), ("asc", .ascending), ("desc", .descending)]

/-- Reads a direction typed by hand, where nothing means none; the refusal is a message. -/
def ofKeyword (s : String) : Except String SortDirection :=
  match Text.lowerKeyword s with
  | "" => .ok .none
  | name => match savedNames.lookup name with
    | some d => .ok d
    | Option.none => .error s!"unknown sort direction '{name}'"

end SortDirection

structure GridColumn where
  source : Option Endpoint
  displayName : String
  aggregate : Aggregate
  sort : SortDirection
  visible : Bool
  criteria : List String
deriving DecidableEq, Repr

structure Contribution where
  select : Option String
  orderBy : Option String
  criteria : Option String
  groupBy : Option String
deriving DecidableEq, Repr

namespace GridColumn

def named (displayName : String) : GridColumn :=
  ⟨none, displayName, .none, .none, true, []⟩

/-- The column picked at an endpoint: grouped by, under the path that the catalog has for it. -/
def picked? (catalog : Catalog) (e : Endpoint) : Option GridColumn := do
  let path ← catalog.path? e.column
  pure { named path with source := some e, aggregate := .groupBy }

/-- Sets the criteria, leaving blank ones out. -/
def withCriteria (g : GridColumn) (criteria : List String) : GridColumn :=
  { g with criteria := criteria.filter fun v => !Text.blank v }

def effectiveName (totals : Bool) (g : GridColumn) : String :=
  match totals, g.aggregate.function? with
  | true, some f => f ++ "(" ++ g.displayName ++ ")"
  | _, _ => g.displayName

def conditions (totals : Bool) (g : GridColumn) : List String :=
  (g.criteria.filter fun v => !Text.blank v).map fun v => g.effectiveName totals ++ " = " ++ v

def contribution (totals : Bool) (g : GridColumn) : Contribution where
  select := if g.visible then some (g.effectiveName totals) else none
  orderBy := g.sort.keyword?.map fun keyword => g.displayName ++ " " ++ keyword
  criteria :=
    match g.conditions totals with
    | [] => none
    | terms => some (" OR ".intercalate terms)
  groupBy := if totals && g.aggregate = .groupBy then some (g.effectiveName totals) else none

end GridColumn

end VisualQuery
