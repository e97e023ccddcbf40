import VisualQuery.Text.Quoted

/-!
Misfits: well-formed data that does not have the shape asked for. The same causes arise in
documents and in settings, and each has one wording.
-/

namespace VisualQuery

/-- What was found where something else was wanted. A floating number comes already written,
since the style is that of the format it stood in. -/
inductive Found where
  | integer (n : Int)
  | floating (written : String)
  | boolean (b : Bool)
  | text (s : String)
  | null
  | sequence
  | map
deriving DecidableEq, Repr

def Found.describe : Found → String
  | .integer n => s!"integer `{n}`"
  | .floating written => s!"floating point `{written}`"
  | .boolean b => s!"boolean `{b}`"
  | .text s => "string " ++ Text.quoted s
  | .null => "null"
  | .sequence => "sequence"
  | .map => "map"

inductive Misfit where
  | wrongType (found : Found) (expected : String)
  | wrongValue (found : Found) (expected : String)
  | wrongLength (length : Nat) (expected : String)
  | missingField (name : String)
  | duplicateField (name : String)
  | unknownVariant (name : String) (known : List String)
deriving DecidableEq, Repr

def listChoices : List String → String
  | [] => "there are no variants"
  | [name] => s!"expected `{name}`"
  | [first, second] => s!"expected `{first}` or `{second}`"
  | names => "expected one of " ++ ", ".intercalate (names.map fun name => s!"`{name}`")

def Misfit.message : Misfit → String
  | .wrongType found expected => s!"invalid type: {found.describe}, expected {expected}"
  | .wrongValue found expected => s!"invalid value: {found.describe}, expected {expected}"
  | .wrongLength length expected => s!"invalid length {length}, expected {expected}"
  | .missingField name => s!"missing field `{name}`"
  | .duplicateField name => s!"duplicate field `{name}`"
  | .unknownVariant name known => s!"unknown variant `{name}`, {listChoices known}"

end VisualQuery
