import VisualQuery.Text.Keyword

/-!
Join kinds: the keyword that a relationship gives to its join.
-/

namespace VisualQuery

inductive JoinKind where
  | inner
  | left
  | right
deriving DecidableEq, Repr

namespace JoinKind

def keyword : JoinKind → String
  | .inner => "INNER"
  | .left => "LEFT"
  | .right => "RIGHT"

def cycle : JoinKind → JoinKind
  | .inner => .left
  | .left => .right
  | .right => .inner

/-- Three steps lead round. -/
theorem cycle_cycle_cycle (k : JoinKind) : k.cycle.cycle.cycle = k := by cases k <;> rfl

def savedNames : List (String × JoinKind) :=
  [("INNER", .inner), ("inner", .inner), ("LEFT", .left), ("left", .left), ("RIGHT", .right),
    ("right", .right)]

/-- Reads a kind typed by hand; the refusal is a message. -/
def ofKeyword (s : String) : Except String JoinKind :=
  match Text.upperKeyword s with
  | "INNER" => .ok .inner
  | "LEFT" => .ok .left
  | "RIGHT" => .ok .right
  | other => .error s!"unknown join kind '{other}'"

end JoinKind

end VisualQuery
