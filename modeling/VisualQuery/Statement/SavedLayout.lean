import VisualQuery.Statement.Sql
import VisualQuery.Json.Reading

/-!
Layouts in saved data: a record of which every field may be left out.
-/

namespace VisualQuery.Layout

structure Draft where
  composition : Option Composition
  pretty : Option Bool

def field (d : Draft) (key : String) : Except Json.Fault (Json.Node → Except Json.Fault Draft) :=
  if key = "where_composition" then
    Json.once key d.composition (Json.Node.oneOf Composition.savedNames) fun c =>
      { d with composition := some c }
  else if key = "pretty" then
    Json.once key d.pretty Json.Node.boolean fun b => { d with pretty := some b }
  else Json.passOver d

/-- The layout of a draft: what was not given is standard. -/
def ofDraft (d : Draft) : Layout :=
  ⟨d.composition.getD standard.composition, d.pretty.getD standard.pretty⟩

def ofNode : Json.Node → Except Json.Fault Layout
  | .list items => do
    let (composition, items) ← items.next (Json.Node.oneOf Composition.savedNames)
    let (pretty, items) ← items.next Json.Node.boolean
    items.finish
    pure (ofDraft ⟨composition, pretty⟩)
  | .object members => ofDraft <$> members.fields field ⟨none, none⟩
  | node => .error (node.misfit "struct RenderOptions")

end VisualQuery.Layout
