import VisualQuery.Json.Scan

/-!
Readers: from a node to a value of a wanted type. Each reader meets the faults of a node in the
order of the text. Records may be written as objects or as lists of their fields.
-/

namespace VisualQuery.Json

def Node.string : Node → Except Fault String
  | .text string => string.read
  | node => .error (node.misfit "a string")

def Node.boolean : Node → Except Fault Bool
  | .word (.boolean b) (.ok ()) => .ok b
  | node => .error (node.misfit "a boolean")

/-- Reads a whole number from zero on; numbers of more than 64 bits are floating ones. -/
def Node.count : Node → Except Fault Nat
  | .number ⟨.ok (.whole n), _⟩ =>
    if n < 0 then .error (.misfit (.wrongValue (.integer n) "usize")) else .ok n.toNat
  | node => .error (node.misfit "usize")

/-- Reads a value that may be null. What starts like null has to be null. -/
def Node.optional {α : Type} (reader : Node → Except Fault α) : Node → Except Fault (Option α)
  | .word .null spelling => do
    spelling
    pure none
  | node => some <$> reader node

def Items.all {α : Type} (reader : Node → Except Fault α) : Items → Except Fault (List α)
  | .close => .ok []
  | .ends => .error .endsInList
  | .stray => .error .listNotContinued
  | .dangling => .error .trailingComma
  | .item node rest => do
    let x ← reader node
    let xs ← rest.all reader
    pure (x :: xs)

def Node.listOf {α : Type} (reader : Node → Except Fault α) : Node → Except Fault (List α)
  | .list items => items.all reader
  | node => .error (node.misfit "a sequence")

def Members.entries {α : Type} (reader : Node → Except Fault α) :
    Members → Except Fault (List (String × α))
  | .close => .ok []
  | .ends => .error .endsInObject
  | .stray => .error .objectNotContinued
  | .dangling => .error .trailingComma
  | .cut => .error .endsAtValue
  | .keyless => .error .keyNotString
  | .lone key atEnd => do
    let _ ← key.read
    if atEnd then .error .endsInObject else .error .noColon
  | .member key value rest => do
    let k ← key.read
    let x ← reader value
    let xs ← rest.entries reader
    pure ((k, x) :: xs)

def Node.entriesOf {α : Type} (reader : Node → Except Fault α) :
    Node → Except Fault (List (String × α))
  | .object members => members.entries reader
  | node => .error (node.misfit "a map")

/-! ### Records -/

/-- Reads the members of a record into a draft. For each key `field` says how its value is read
into the draft, or refuses the key before its value is looked at. -/
def Members.fields {σ : Type} (field : σ → String → Except Fault (Node → Except Fault σ)) :
    σ → Members → Except Fault σ
  | draft, .close => .ok draft
  | _, .ends => .error .endsInObject
  | _, .stray => .error .objectNotContinued
  | _, .dangling => .error .trailingComma
  | _, .cut => .error .endsAtValue
  | _, .keyless => .error .keyNotString
  | draft, .lone key atEnd => do
    let k ← key.read
    let _ ← field draft k
    if atEnd then .error .endsInObject else .error .noColon
  | draft, .member key value rest => do
    let k ← key.read
    let readInto ← field draft k
    let draft ← readInto value
    rest.fields field draft

/-- A field that may be given once: reads its value and puts it into the draft. -/
def once {α σ : Type} (name : String) (slot : Option α) (reader : Node → Except Fault α)
    (put : α → σ) : Except Fault (Node → Except Fault σ) :=
  match slot with
  | some _ => .error (.misfit (.duplicateField name))
  | none => .ok fun node => put <$> reader node

def passOver {σ : Type} (draft : σ) : Except Fault (Node → Except Fault σ) :=
  .ok fun node => do
    node.skim
    pure draft

def require {α : Type} (name : String) : Option α → Except Fault α
  | some x => .ok x
  | none => .error (.misfit (.missingField name))

/-- Reads the next field of a record written as a list; none if the list is closed. -/
def Items.next {α : Type} (reader : Node → Except Fault α) :
    Items → Except Fault (Option α × Items)
  | .close => .ok (none, .close)
  | .ends => .error .endsInList
  | .stray => .error .listNotContinued
  | .dangling => .error .trailingComma
  | .item node rest => do
    let x ← reader node
    pure (some x, rest)

/-- Reads the next field of a record written as a list, which has to be there: `position` is
the number of fields before it. -/
def Items.nextOf {α : Type} (record : String) (position : Nat) (reader : Node → Except Fault α)
    (items : Items) : Except Fault (α × Items) := do
  let (x, rest) ← items.next reader
  match x with
  | some x => pure (x, rest)
  | none => .error (.misfit (.wrongLength position record))

def Items.finish : Items → Except Fault Unit
  | .close => .ok ()
  | .ends => .error .endsInList
  | .dangling => .error .trailingComma
  | .stray => .error .trailingCharacters
  | .item _ _ => .error .trailingCharacters

/-! ### Choices -/

def choose {α : Type} (names : List (String × α)) (name : String) : Except Fault α :=
  match names.lookup name with
  | some x => .ok x
  | none => .error (.misfit (.unknownVariant name (names.map Prod.fst)))

def Node.unit : Node → Except Fault Unit
  | .word .null spelling => spelling
  | node => .error (node.misfit "unit")

/-- Reads one of several names: as a string, or as the key of an object whose only value is
null. -/
def Node.oneOf {α : Type} (names : List (String × α)) : Node → Except Fault α
  | .missing => .error .endsAtValue
  | .text name => do choose names (← name.read)
  | .object .ends => .error .endsInObject
  | .object .keyless => .error .keyNotString
  | .object (.lone key atEnd) => do
    let _ ← choose names (← key.read)
    if atEnd then .error .endsInObject else .error .noColon
  | .object (.member key value rest) => do
    let x ← choose names (← key.read)
    value.unit
    match rest with
    | .close => pure x
    | .ends => .error .endsInObject
    | _ => .error .noValue
  | _ => .error .noValue

end VisualQuery.Json
