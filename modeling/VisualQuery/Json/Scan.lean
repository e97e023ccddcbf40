import VisualQuery.Json.Node
import VisualQuery.Json.Quote

/-!
From text to nodes. Scanning never fails: where the grammar is broken the node says so, and
nothing behind that place is looked at.
-/

namespace VisualQuery.Json

def isSpace (c : Char) : Bool := c = ' ' || c = '\t' || c = '\n' || c = '\r'

def skipSpaces (s : List Char) : List Char := s.dropWhile isSpace

/-- A scalar whose reading failed with a fault that skimming meets too. -/
def Written.broken {α : Type} (fault : Fault) : Written α := ⟨.error fault, .error fault⟩

/-- A string from behind its opening quote, and the text behind it. -/
def scanString (s : List Char) : Written String × List Char :=
  match skimQuote .plain s with
  | .error fault => (⟨(readQuote .plain [] s).map Prod.fst, .error fault⟩, [])
  | .ok rest => (⟨(readQuote .plain [] s).map Prod.fst, .ok ()⟩, rest)

/-- A number from behind its sign, and the text behind it. -/
def scanNumber (negative : Bool) (s : List Char) : Written Number × List Char :=
  match Numeral.scan negative s with
  | .error .ends => (⟨.error .endsAtValue, .error .badNumber⟩, [])
  | .error .malformed => (.broken .badNumber, [])
  | .ok (numeral, rest) => (⟨numeral.number, .ok ()⟩, rest)

/-- The other letters of a word, one by one, and the text behind it. -/
def scanLetters : List Char → List Char → Except Fault Unit × List Char
  | [], s => (.ok (), s)
  | _ :: _, [] => (.error .endsAtValue, [])
  | w :: ws, c :: r => if c = w then scanLetters ws r else (.error .unknownWord, [])

mutual

/-- The node a text starts with, and the text behind it. Every step inwards takes at most three
calls for a character, which is what the fuel counts. -/
def scanNode : Nat → List Char → Node × List Char
  | 0, _ => (.missing, [])
  | fuel + 1, s =>
    match skipSpaces s with
    | [] => (.missing, [])
    | '"' :: r => (scanString r).map .text id
    | '[' :: r => (scanItems fuel r).map .list id
    | '\x7b' :: r => (scanMembers fuel r).map .object id
    | 'n' :: r => (scanLetters ['u', 'l', 'l'] r).map (.word .null) id
    | 't' :: r => (scanLetters ['r', 'u', 'e'] r).map (.word (.boolean true)) id
    | 'f' :: r => (scanLetters ['a', 'l', 's', 'e'] r).map (.word (.boolean false)) id
    | '-' :: r => (scanNumber true r).map .number id
    | c :: r => if c.isDigit then (scanNumber false (c :: r)).map .number id else (.stray, [])

/-- The items behind an opening bracket. -/
def scanItems : Nat → List Char → Items × List Char
  | 0, _ => (.ends, [])
  | fuel + 1, s =>
    match skipSpaces s with
    | [] => (.ends, [])
    | ']' :: r => (.close, r)
    | s =>
      let (node, r) := scanNode fuel s
      (moreItems fuel r).map (.item node) id

/-- The items behind an item. -/
def moreItems : Nat → List Char → Items × List Char
  | 0, _ => (.ends, [])
  | fuel + 1, s =>
    match skipSpaces s with
    | [] => (.ends, [])
    | ']' :: r => (.close, r)
    | ',' :: r =>
      match skipSpaces r with
      | ']' :: _ => (.dangling, [])
      | r =>
        let (node, r) := scanNode fuel r
        (moreItems fuel r).map (.item node) id
    | _ => (.stray, [])

/-- The members behind an opening brace. -/
def scanMembers : Nat → List Char → Members × List Char
  | 0, _ => (.ends, [])
  | fuel + 1, s =>
    match skipSpaces s with
    | [] => (.ends, [])
    | '\x7d' :: r => (.close, r)
    | '"' :: r => scanMember fuel r
    | _ => (.keyless, [])

/-- A member from behind the opening quote of its key, and the members behind it. -/
def scanMember : Nat → List Char → Members × List Char
  | 0, _ => (.ends, [])
  | fuel + 1, s =>
    let (key, r) := scanString s
    match skipSpaces r with
    | [] => (.lone key true, [])
    | ':' :: r =>
      let (node, r) := scanNode fuel r
      (moreMembers fuel r).map (.member key node) id
    | _ => (.lone key false, [])

/-- The members behind a member. -/
def moreMembers : Nat → List Char → Members × List Char
  | 0, _ => (.ends, [])
  | fuel + 1, s =>
    match skipSpaces s with
    | [] => (.ends, [])
    | '\x7d' :: r => (.close, r)
    | ',' :: r =>
      match skipSpaces r with
      | [] => (.cut, [])
      | '\x7d' :: _ => (.dangling, [])
      | '"' :: r => scanMember fuel r
      | _ => (.keyless, [])
    | _ => (.stray, [])

end

/-- A whole text: its value, and whether anything but white space follows it. -/
structure Outline where
  root : Node
  surplus : Bool

def Outline.scan (s : String) : Outline :=
  let cs := s.toList
  let (root, rest) := scanNode (3 * cs.length + 3) cs
  ⟨root, !(skipSpaces rest).isEmpty⟩

/-- Reads a whole text. What follows the value is looked at only when the value could be read. -/
def Outline.read {α : Type} (t : Outline) (reader : Node → Except Fault α) : Except Fault α := do
  let x ← reader t.root
  if t.surplus then .error .trailingCharacters else pure x

end VisualQuery.Json
