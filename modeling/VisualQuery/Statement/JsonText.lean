import VisualQuery.Json.Printer
import VisualQuery.Statement.Clauses

/-!
Clauses as JSON text: an object with one key a line, each list entry on a line of its own, and
two blanks for each level.
-/

namespace VisualQuery

def Clauses.jsonList (entries : List String) : String :=
  if entries.isEmpty then "[]"
  else "[\n    " ++ ",\n    ".intercalate (entries.map Json.quote) ++ "\n  ]"

def Clauses.json (c : Clauses) : String :=
  let members := [("select", Clauses.jsonList c.select), ("from", Json.quote c.source),
    ("where", Clauses.jsonList c.conditions), ("group_by", Clauses.jsonList c.groupBy),
    ("order_by", Clauses.jsonList c.orderBy)]
  "\x7b\n  " ++ ",\n  ".intercalate (members.map fun m => Json.quote m.1 ++ ": " ++ m.2) ++ "\n\x7d"

end VisualQuery
