import VisualQuery.Decimal.Style
import VisualQuery.Misfit
import VisualQuery.Settings.Basic
import VisualQuery.Toml.Tree

/-!
Reading settings from a TOML document. Tables are read in the order of their keys, unknown keys
are passed over, and what is not set keeps its standard value. An array may stand for a table: it
then holds the values of the known keys in a fixed order.
-/

namespace VisualQuery

inductive SettingsFault where
  | misfit (cause : Misfit)
  /-- A choice is neither a name nor a table with a name. -/
  | noChoice
  /-- A table that stands for a choice is empty, or has several keys. -/
  | notOneKey (empty : Bool)
  /-- The value under the key of a choice is not empty. -/
  | choiceWithValue (found : String)
  /-- What is written like a number has no value. -/
  | noNumber
deriving DecidableEq, Repr

def SettingsFault.message : SettingsFault → String
  | .misfit cause => cause.message
  | .noChoice => "wanted string or table"
  | .notOneKey true => "wanted exactly 1 element, found 0 elements"
  | .notOneKey false => "wanted exactly 1 element, more than 1 element"
  | .choiceWithValue found => "expected " ++ found
  | .noNumber => "number out of range"

namespace Toml

/-- What a scalar is called in a misfit; a moment counts as a map. A floating number keeps its point
there, unless it has no digits. -/
def Scalar.found : Scalar → Except SettingsFault Found
  | .text s => .ok (.text s)
  | .integer n => .ok (.integer n)
  | .floating x => .ok (.floating (Decimal.plain.write x))
  | .noNumber => .error .noNumber
  | .boolean b => .ok (.boolean b)
  | .moment => .ok .map

def Tree.found : Tree → Except SettingsFault Found
  | .scalar s => s.found
  | .array _ => .ok .sequence
  | .table _ _ => .ok .map
  | .tables _ _ => .ok .sequence

def Tree.misfit (t : Tree) (expected : String) : SettingsFault :=
  match t.found with
  | .ok found => .misfit (.wrongType found expected)
  | .error fault => fault

def Tree.items? : Tree → Option (List Tree)
  | .array items => some items
  | .tables last before => some (before.reverse ++ [.table .header last])
  | _ => none

def Tree.kindWord : Tree → String
  | .scalar (.text _) => "string"
  | .scalar (.integer _) => "integer"
  | .scalar (.floating _) => "float"
  | .scalar .noNumber => "number"
  | .scalar (.boolean _) => "boolean"
  | .scalar .moment => "datetime"
  | .array _ => "array"
  | .tables _ _ => "array"
  | .table _ _ => "table"

def Tree.boolean : Tree → Except SettingsFault Bool
  | .scalar (.boolean b) => .ok b
  | t => .error (t.misfit "a boolean")

def choose {α : Type} (names : List (String × α)) (name : String) : Except SettingsFault α :=
  match names.lookup name with
  | some x => .ok x
  | none => .error (.misfit (.unknownVariant name (names.map Prod.fst)))

/-- Reads one of several names: as a string, or as the only key of a table, under which there is
nothing. -/
def Tree.oneOf {α : Type} (names : List (String × α)) : Tree → Except SettingsFault α
  | .scalar (.text name) => choose names name
  | .table _ [] => .error (.notOneKey true)
  | .table _ [(name, value)] => do
    let x ← choose names name
    match value with
    | .table _ [] => pure x
    | .array [] => pure x
    | .table _ _ => .error (.choiceWithValue "empty table")
    | .array _ => .error (.choiceWithValue "empty array")
    | .tables _ _ => .error (.choiceWithValue "empty array")
    | .scalar s => .error (.choiceWithValue ("table, found " ++ (Tree.scalar s).kindWord))
  | .table _ (_ :: _ :: _) => .error (.notOneKey false)
  | _ => .error .noChoice

def Tree.skim (t : Tree) : Except SettingsFault Unit :=
  if t.all Scalar.hasValue then .ok () else .error .noNumber

def readMembers {σ : Type} (field : String → Option (σ → Tree → Except SettingsFault σ))
    (start : σ) (m : Members) : Except SettingsFault σ :=
  m.foldlM (fun s (key, t) =>
    match field key with
    | some read => read s t
    | none => do
      t.skim
      pure s) start

/-- Reads the values of an array by position; items beyond the known ones do not count. -/
def readItems {σ : Type} (fields : List (σ → Tree → Except SettingsFault σ)) (start : σ)
    (items : List Tree) : Except SettingsFault σ :=
  (fields.zip items).foldlM (fun s (read, t) => read s t) start

def Tree.record {σ : Type} (shape : String)
    (fields : List (String × (σ → Tree → Except SettingsFault σ))) (start : σ) (t : Tree) :
    Except SettingsFault σ :=
  match t, t.items? with
  | .table _ m, _ => readMembers (fields.lookup ·) start m
  | _, some items => readItems (fields.map Prod.snd) start items
  | .scalar .moment, none => .ok start
  | t, none => .error (t.misfit shape)

end Toml

open Toml (Tree)

namespace Defaults

def setTotals (d : Defaults) (t : Tree) : Except SettingsFault Defaults := do
  pure { d with totals := ← t.boolean }

def setJoinKind (d : Defaults) (t : Tree) : Except SettingsFault Defaults := do
  pure { d with joinKind := ← t.oneOf JoinKind.savedNames }

def ofTree (start : Defaults) (t : Tree) : Except SettingsFault Defaults :=
  t.record "struct CompileSettings"
    [("totals", setTotals), ("default_join_kind", setJoinKind)] start

end Defaults

namespace Layout

def setComposition (l : Layout) (t : Tree) : Except SettingsFault Layout := do
  pure { l with composition := ← t.oneOf Composition.savedNames }

def setPretty (l : Layout) (t : Tree) : Except SettingsFault Layout := do
  pure { l with pretty := ← t.boolean }

def ofTree (start : Layout) (t : Tree) : Except SettingsFault Layout :=
  t.record "struct RenderOptions"
    [("where_composition", setComposition), ("pretty", setPretty)] start

end Layout

namespace Settings

def setDefaults (s : Settings) (t : Tree) : Except SettingsFault Settings := do
  pure { s with defaults := ← Defaults.ofTree s.defaults t }

def setLayout (s : Settings) (t : Tree) : Except SettingsFault Settings := do
  pure { s with layout := ← Layout.ofTree s.layout t }

def ofMembers (m : Toml.Members) : Except SettingsFault Settings :=
  Toml.readMembers ([("compile", setDefaults), ("render", setLayout)].lookup ·) standard m

end Settings

end VisualQuery
