import VisualQuery.Json.Fault
import VisualQuery.Text.Hex

/-!
Strings in JSON text, from behind the opening quote to the closing one. A string can be read, or
skimmed: skimming checks the escapes but not that surrogates come in pairs, and keeps nothing.
-/

namespace VisualQuery.Json

def escaped? : Char → Option Char
  | '"' => some '"'
  | '\\' => some '\\'
  | '/' => some '/'
  | 'b' => some '\x08'
  | 'f' => some '\x0c'
  | 'n' => some '\n'
  | 'r' => some '\r'
  | 't' => some '\t'
  | _ => none

/-- Whether at least four bytes of text are left, as four hexadecimal digits need. -/
def fourBytesLeft (r : List Char) : Bool :=
  4 ≤ (r.take 4).foldl (fun n c => n + c.utf8Size) 0

/-- The high surrogates, which start a pair. -/
def isHighSurrogate (n : Nat) : Bool := 0xd800 ≤ n && n ≤ 0xdbff

/-- The low surrogates, which end a pair. -/
def isLowSurrogate (n : Nat) : Bool := 0xdc00 ≤ n && n ≤ 0xdfff

def pairedChar (high low : Nat) : Char :=
  Char.ofNat (0x10000 + (high - 0xd800) * 0x400 + (low - 0xdc00))

/-- Where reading stands between two characters of a string. A high surrogate that waits for its
partner is carried along. -/
inductive QuoteState where
  | plain
  | escape
  | hex (value : Nat) (left : Nat) (high : Option Nat)
  | awaitBackslash (high : Nat)
  | awaitU (high : Nat)

/-- Reads a string to its closing quote; `done` holds the characters read so far, last first. -/
def readQuote (state : QuoteState) (done : List Char) :
    List Char → Except Fault (String × List Char)
  | [] => .error .endsInString
  | c :: r =>
    match state with
    | .plain =>
      if c = '"' then .ok (String.ofList done.reverse, r)
      else if c = '\\' then readQuote .escape done r
      else if c.toNat < 0x20 then .error .controlCharacter
      else readQuote .plain (c :: done) r
    | .escape =>
      if c = 'u' then
        if fourBytesLeft r then readQuote (.hex 0 4 none) done r else .error .endsInString
      else match escaped? c with
        | some e => readQuote .plain (e :: done) r
        | none => .error .badEscape
    | .hex value left high =>
      match Text.hexDigit? c with
      | none => .error .badEscape
      | some d =>
        let value := 16 * value + d
        if 1 < left then readQuote (.hex value (left - 1) high) done r
        else match high with
          | some h =>
            if isLowSurrogate value then readQuote .plain (pairedChar h value :: done) r
            else .error .loneSurrogate
          | none =>
            if isLowSurrogate value then .error .loneSurrogate
            else if isHighSurrogate value then readQuote (.awaitBackslash value) done r
            else readQuote .plain (Char.ofNat value :: done) r
    | .awaitBackslash high =>
      if c = '\\' then readQuote (.awaitU high) done r else .error .unfinishedSurrogate
    | .awaitU high =>
      if c = 'u' then
        if fourBytesLeft r then readQuote (.hex 0 4 (some high)) done r else .error .endsInString
      else .error .unfinishedSurrogate

inductive SkimState where
  | plain
  | escape
  | hex (left : Nat)

def skimQuote (state : SkimState) : List Char → Except Fault (List Char)
  | [] => .error .endsInString
  | c :: r =>
    match state with
    | .plain =>
      if c = '"' then .ok r
      else if c = '\\' then skimQuote .escape r
      else if c.toNat < 0x20 then .error .controlCharacter
      else skimQuote .plain r
    | .escape =>
      if c = 'u' then if fourBytesLeft r then skimQuote (.hex 4) r else .error .endsInString
      else match escaped? c with
        | some _ => skimQuote .plain r
        | none => .error .badEscape
    | .hex left =>
      match Text.hexDigit? c with
      | none => .error .badEscape
      | some _ => if 1 < left then skimQuote (.hex (left - 1)) r else skimQuote .plain r

end VisualQuery.Json
