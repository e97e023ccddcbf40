import VisualQuery.Toml.Quote
import VisualQuery.Toml.Scalar

/-!
The grammar of TOML text: a document is a sequence of lines, each of which opens a table, opens a
further table of an array, or gives a value to a key.
-/

namespace VisualQuery.Toml

structure Path where
  parents : List String
  key : String
deriving DecidableEq, Repr

inductive Value where
  | scalar (s : Scalar)
  | array (items : List Value)
  | inline (members : List (Path × Value))

/-- What a line says: the headers of two sorts of table, or a value under a key. -/
inductive Line where
  | openTable (path : Path)
  | openArray (path : Path)
  | assign (path : Path) (value : Value)

/-! ### Blanks, breaks and comments -/

def skipBlanks (s : List Char) : List Char := s.dropWhile fun c => c = ' ' || c = '\t'

/-- The text behind a comment, if the text starts with one; a comment runs to the line break. -/
def skipComment? : List Char → Option (List Char)
  | '#' :: r =>
    match r.dropWhile isPlain with
    | [] => some []
    | '\n' :: r => some ('\n' :: r)
    | '\r' :: '\n' :: r => some ('\n' :: r)
    | _ => none
  | r => some r

def endLine? (s : List Char) : Option (List Char) := do
  match ← skipComment? (skipBlanks s) with
  | [] => some []
  | '\n' :: r => some r
  | '\r' :: '\n' :: r => some r
  | _ => none

def skipLines? : Nat → List Char → Option (List Char)
  | 0, s => some s
  | fuel + 1, s =>
    match skipBlanks s with
    | '\n' :: r => skipLines? fuel r
    | '\r' :: '\n' :: r => skipLines? fuel r
    | '#' :: r => do skipLines? fuel (← skipComment? ('#' :: r))
    | r => some r

/-! ### Keys -/

def isBareKeyChar (c : Char) : Bool := c.isAlphanum || c = '_' || c = '-'

/-- A key without dots: bare, or quoted on one line. -/
def simpleKey? (s : List Char) : Option (String × List Char) :=
  match s with
  | '"' :: r => readBasic .plain [] r
  | '\'' :: r => readLiteral [] r
  | s =>
    let word := s.takeWhile isBareKeyChar
    if word.isEmpty then none else some (String.ofList word, s.dropWhile isBareKeyChar)

def maxKeys : Nat := 80

/-- A key with blanks around its dots; at most `fuel` keys are read, and `parents` are those read
so far, last first. The blanks behind it are skipped. -/
def path? : Nat → List String → List Char → Option (Path × List Char)
  | 0, _, _ => none
  | fuel + 1, parents, s => do
    let (key, r) ← simpleKey? (skipBlanks s)
    match skipBlanks r with
    | '.' :: r => path? fuel (key :: parents) r
    | r => some (⟨parents.reverse, key⟩, r)

/-! ### Values -/

def maxNesting : Nat := 80

mutual

/-- The value a text starts with; at most `depth` more containers may be open at once, and `fuel`
bounds the calls within each other. -/
def value? : Nat → Nat → List Char → Option (Value × List Char)
  | 0, _, _ => none
  | fuel + 1, depth, s =>
    match s with
    | '[' :: r =>
      match depth with
      | 0 => none
      | depth + 1 => do
        let (items, r) ← items? fuel depth r
        some (.array items, r)
    | '\x7b' :: r =>
      match depth with
      | 0 => none
      | depth + 1 => do
        let (members, r) ← members? fuel depth r
        some (.inline members, r)
    | c :: _ =>
      if c = '"' || c = '\'' then do
        let (text, r) ← quotedString s
        some (.scalar (.text text), r)
      else do
        let (word, r) := splitWord s
        some (.scalar (← Scalar.ofWord? word), r)
    | [] => none

def items? : Nat → Nat → List Char → Option (List Value × List Char)
  | 0, _, _ => none
  | fuel + 1, depth, s => do
    match ← skipLines? s.length s with
    | ']' :: r => some ([], r)
    | s =>
      let (item, r) ← value? fuel depth s
      match ← skipLines? r.length r with
      | ']' :: r => some ([item], r)
      | ',' :: r => do
        let (items, r) ← items? fuel depth r
        some (item :: items, r)
      | _ => none

/-- The members of an inline table from behind its brace or a comma. Lines may end anywhere in it
but around the dots of a key. -/
def members? : Nat → Nat → List Char → Option (List (Path × Value) × List Char)
  | 0, _, _ => none
  | fuel + 1, depth, s => do
    match ← skipLines? s.length s with
    | '\x7d' :: r => some ([], r)
    | s =>
      let (path, r) ← path? maxKeys [] s
      match ← skipLines? r.length r with
      | '=' :: r => do
        let (value, r) ← value? fuel depth (← skipLines? r.length r)
        match ← skipLines? r.length r with
        | '\x7d' :: r => some ([(path, value)], r)
        | ',' :: r => do
          let (members, r) ← members? fuel depth r
          some ((path, value) :: members, r)
        | _ => none
      | _ => none

end

/-! ### Lines -/

def line? (s : List Char) : Option (Line × List Char) :=
  match s with
  | '[' :: '[' :: r => do
    let (path, r) ← path? maxKeys [] r
    match r with
    | ']' :: ']' :: r => some (.openArray path, r)
    | _ => none
  | '[' :: r => do
    let (path, r) ← path? maxKeys [] r
    match r with
    | ']' :: r => some (.openTable path, r)
    | _ => none
  | s => do
    let (path, r) ← path? maxKeys [] s
    match r with
    | '=' :: r => do
      let (value, r) ← value? (3 * r.length + 3) maxNesting (skipBlanks r)
      some (.assign path value, r)
    | _ => none

def lines? : Nat → List Char → Option (List Line)
  | 0, _ => none
  | fuel + 1, s => do
    match ← skipLines? s.length s with
    | [] => some []
    | s =>
      let (line, r) ← line? s
      let r ← endLine? r
      let rest ← lines? fuel r
      some (line :: rest)

/-- The lines of a document. A byte order mark in front of them does not count. -/
def linesOf? (text : String) : Option (List Line) :=
  let s := text.toList
  let s := match s with
    | '\ufeff' :: r => r
    | s => s
  lines? (s.length + 1) s

end VisualQuery.Toml
