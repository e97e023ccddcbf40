import VisualQuery.Json.Number

/-!
What a text holds where a JSON value is expected. Text may break off or go wrong anywhere, so
every place that can hold a value, an item or a member can also hold what was met there instead.
A reader walks a node in the order of the text and reports the first fault that matters to it:
reading a scalar and skimming past it meet different faults, and a reader that refuses a value by
its kind never looks inside.
-/

namespace VisualQuery.Json

/-- A scalar as it stands in the text: what reading it gives, and whether it can be skimmed. -/
structure Written (α : Type) where
  read : Except Fault α
  skim : Except Fault Unit

/-- The words that are values. The first letter of a word already tells which one it has to be. -/
inductive Word where
  | null
  | boolean (b : Bool)
deriving DecidableEq, Repr

mutual

inductive Node where
  /-- The text ends. -/
  | missing
  /-- A character that starts no value. -/
  | stray
  /-- The word that the first letter announces, and whether the other letters follow. -/
  | word (announced : Word) (spelling : Except Fault Unit)
  /-- A number, sound or not. -/
  | number (written : Written Number)
  /-- A string, sound or not. -/
  | text (string : Written String)
  | list (items : Items)
  | object (members : Members)

/-- What follows an opening bracket, or an item. -/
inductive Items where
  /-- The closing bracket. -/
  | close
  /-- The text ends. -/
  | ends
  /-- Behind an item, neither a comma nor the closing bracket. -/
  | stray
  /-- Behind an item, a comma and then the closing bracket. -/
  | dangling
  /-- An item, behind a comma unless it is the first. -/
  | item (node : Node) (rest : Items)

/-- What follows an opening brace, or a member. -/
inductive Members where
  /-- The closing brace. -/
  | close
  /-- The text ends. -/
  | ends
  /-- Behind a member, neither a comma nor the closing brace. -/
  | stray
  /-- Behind a member, a comma and then the closing brace. -/
  | dangling
  /-- Behind a member, a comma and then the end of the text. -/
  | cut
  /-- Something other than a string stands where a key is expected. -/
  | keyless
  /-- A key without a colon, at the end of the text or not. -/
  | lone (key : Written String) (atEnd : Bool)
  /-- A member, behind a comma unless it is the first. -/
  | member (key : Written String) (value : Node) (rest : Members)

end

mutual

/-- Whether a value can be passed over; its strings and numbers are only skimmed. -/
def Node.skim : Node → Except Fault Unit
  | .missing => .error .endsAtValue
  | .stray => .error .noValue
  | .word _ spelling => spelling
  | .number written => written.skim
  | .text string => string.skim
  | .list items => items.skim
  | .object members => members.skim

def Items.skim : Items → Except Fault Unit
  | .close => .ok ()
  | .ends => .error .endsInList
  | .stray => .error .listNotContinued
  | .dangling => .error .noValue
  | .item node rest => do
    node.skim
    rest.skim

def Members.skim : Members → Except Fault Unit
  | .close => .ok ()
  | .ends => .error .endsInObject
  | .stray => .error .objectNotContinued
  | .dangling => .error .keyNotString
  | .cut => .error .endsInObject
  | .keyless => .error .keyNotString
  | .lone key atEnd => do
    key.skim
    if atEnd then .error .endsInObject else .error .noColon
  | .member key value rest => do
    key.skim
    value.skim
    rest.skim

end

def Word.found : Word → Found
  | .null => .null
  | .boolean b => .boolean b

/-- The fault of a value that is refused by its kind. A scalar has to be read before it can be
named; a list or an object is refused at its opening bracket. -/
def Node.misfit (node : Node) (expected : String) : Fault :=
  match node with
  | .missing => .endsAtValue
  | .stray => .noValue
  | .word announced spelling =>
    match spelling with
    | .error fault => fault
    | .ok () => .misfit (.wrongType announced.found expected)
  | .number written =>
    match written.read with
    | .error fault => fault
    | .ok n => .misfit (.wrongType n.found expected)
  | .text string =>
    match string.read with
    | .error fault => fault
    | .ok s => .misfit (.wrongType (.text s) expected)
  | .list _ => .misfit (.wrongType .sequence expected)
  | .object _ => .misfit (.wrongType .map expected)

end VisualQuery.Json
