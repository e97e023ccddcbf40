import VisualQuery.Statement.Sql

/-!
Settings: what a document that does not say otherwise is compiled with, and how its statement is
written.
-/

namespace VisualQuery

/-- What holds for a document that does not say otherwise. -/
structure Defaults where
  totals : Bool
  joinKind : JoinKind
deriving DecidableEq, Repr

structure Settings where
  defaults : Defaults
  layout : Layout
deriving DecidableEq, Repr

def Settings.standard : Settings := ⟨⟨false, .inner⟩, .standard⟩

end VisualQuery
