import VisualQuery.Statement.Clauses

/-!
The statement as text. Only here are the groups of conditions joined, by AND or by OR.
-/

namespace VisualQuery

inductive Composition where
  | all
  | any
deriving DecidableEq, Repr

namespace Composition

def word : Composition → String
  | .all => "and"
  | .any => "or"

def connective : Composition → String
  | .all => " AND "
  | .any => " OR "

def savedNames : List (String × Composition) := [("and", .all), ("or", .any)]

end Composition

/-- How a statement is written: `pretty` puts each clause on a line of its own. -/
structure Layout where
  composition : Composition
  pretty : Bool
deriving DecidableEq, Repr

/-- Groups are joined by AND, on one line. -/
def Layout.standard : Layout := ⟨.all, false⟩

namespace Clauses

/-- The groups of conditions as one predicate. A single group stands as it is; several are put
into parentheses. -/
def predicate (c : Clauses) (composition : Composition) : Option String :=
  match c.conditions with
  | [] => none
  | [group] => some group
  | groups => some (composition.connective.intercalate (groups.map fun g => "(" ++ g ++ ")"))

def listClause (keyword : String) (entries : List String) : List String :=
  if entries.isEmpty then [] else [keyword ++ ", ".intercalate entries]

def texts (c : Clauses) (composition : Composition) : List String :=
  let select := if c.select.isEmpty then "SELECT *" else "SELECT " ++ ", ".intercalate c.select
  [select, "FROM " ++ Text.trimEnd c.source] ++
    ((c.predicate composition).map ("WHERE " ++ ·)).toList ++
    listClause "GROUP BY " c.groupBy ++ listClause "ORDER BY " c.orderBy

def sql (c : Clauses) (layout : Layout) : String :=
  (if layout.pretty then "\n" else " ").intercalate (c.texts layout.composition)

end Clauses

end VisualQuery
