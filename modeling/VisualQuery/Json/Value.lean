import VisualQuery.Json.Reading

/-!
JSON values of any shape. The members of an object are kept in the order of their keys, and of
several members with one key the last one counts.
-/

namespace VisualQuery.Json

inductive Value where
  | null
  | boolean (b : Bool)
  | number (n : Number)
  | text (s : String)
  | list (items : List Value)
  | object (members : List (String × Value))

/-- Puts a member in front of members that are sorted by key and come later in the text: one of
them with the same key wins. -/
def addMember {α : Type} (key : String) (value : α) : List (String × α) → List (String × α)
  | [] => [(key, value)]
  | (k, v) :: rest =>
    if key < k then (key, value) :: (k, v) :: rest
    else if key = k then (k, v) :: rest
    else (k, v) :: addMember key value rest

def maxDepth : Nat := 127

mutual

/-- Reads a value of any shape in which at most `depth` more containers are open at once. -/
def Node.value (depth : Nat) : Node → Except Fault Value
  | .missing => .error .endsAtValue
  | .stray => .error .noValue
  | .word announced spelling => do
    spelling
    match announced with
    | .null => pure .null
    | .boolean b => pure (.boolean b)
  | .number written => do pure (.number (← written.read))
  | .text string => do pure (.text (← string.read))
  | .list items =>
    match depth with
    | 0 => .error .tooDeep
    | depth + 1 => do pure (.list (← items.values depth))
  | .object members =>
    match depth with
    | 0 => .error .tooDeep
    | depth + 1 => do pure (.object (← members.values depth))

def Items.values (depth : Nat) : Items → Except Fault (List Value)
  | .close => .ok []
  | .ends => .error .endsInList
  | .stray => .error .listNotContinued
  | .dangling => .error .trailingComma
  | .item node rest => do
    let x ← node.value depth
    let xs ← rest.values depth
    pure (x :: xs)

def Members.values (depth : Nat) : Members → Except Fault (List (String × Value))
  | .close => .ok []
  | .ends => .error .endsInObject
  | .stray => .error .objectNotContinued
  | .dangling => .error .trailingComma
  | .cut => .error .endsAtValue
  | .keyless => .error .keyNotString
  | .lone key atEnd => do
    let _ ← key.read
    if atEnd then .error .endsInObject else .error .noColon
  | .member key value rest => do
    let k ← key.read
    let x ← value.value depth
    let xs ← rest.values depth
    pure (addMember k x xs)

end

def Value.found : Value → Found
  | .null => .null
  | .boolean b => .boolean b
  | .number n => n.found
  | .text s => .text s
  | .list _ => .sequence
  | .object _ => .map

def Value.ofText (s : String) : Except Fault Value := (Outline.scan s).read (Node.value maxDepth)

end VisualQuery.Json
