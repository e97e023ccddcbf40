import VisualQuery.Text.Hex

/-!
Strings in TOML text, each from behind its opening delimiter. There are four sorts: basic strings
with escapes and literal strings without, both on one line or over several. Over several lines a
line break is kept as it is written, a break right behind the opening delimiter is left out, and
up to two quotes may stand in front of the closing delimiter.
-/

namespace VisualQuery.Toml

/-- Whether a character may stand for itself in a string or a comment: every character but the
ASCII controls, of which only the tab may. -/
def isPlain (c : Char) : Bool := c = '\t' || (0x20 ≤ c.toNat && c.toNat ≠ 0x7f)

/-- What stands behind a backslash: a character, or the number of digits of its code point. -/
inductive Escape where
  | char (c : Char)
  | digits (count : Nat)

def escape? : Char → Option Escape
  | 'b' => some (.char '\x08')
  | 't' => some (.char '\t')
  | 'n' => some (.char '\n')
  | 'f' => some (.char '\x0c')
  | 'r' => some (.char '\r')
  | 'e' => some (.char '\x1b')
  | '"' => some (.char '"')
  | '\\' => some (.char '\\')
  | 'x' => some (.digits 2)
  | 'u' => some (.digits 4)
  | 'U' => some (.digits 8)
  | _ => none

/-- The character of a code point, unless it is a surrogate or too large. -/
def charOfCode? (n : Nat) : Option Char :=
  if n < 0xd800 || (0xdfff < n && n ≤ 0x10ffff) then some (Char.ofNat n) else none

inductive BasicState where
  | plain
  | escape
  | hex (value : Nat) (left : Nat)

/-- A basic string on one line; `done` holds the characters read so far, last first. -/
def readBasic (state : BasicState) (done : List Char) : List Char → Option (String × List Char)
  | [] => none
  | c :: r =>
    match state with
    | .plain =>
      if c = '"' then some (String.ofList done.reverse, r)
      else if c = '\\' then readBasic .escape done r
      else if isPlain c then readBasic .plain (c :: done) r
      else none
    | .escape =>
      match escape? c with
      | some (.char e) => readBasic .plain (e :: done) r
      | some (.digits count) => readBasic (.hex 0 count) done r
      | none => none
    | .hex value left =>
      match Text.hexDigit? c with
      | none => none
      | some d =>
        let value := 16 * value + d
        if 1 < left then readBasic (.hex value (left - 1)) done r
        else match charOfCode? value with
          | some e => readBasic .plain (e :: done) r
          | none => none

def readLiteral (done : List Char) : List Char → Option (String × List Char)
  | [] => none
  | c :: r =>
    if c = '\'' then some (String.ofList done.reverse, r)
    else if isPlain c then readLiteral (c :: done) r
    else none

def dropBreak : List Char → List Char
  | '\n' :: r => r
  | '\r' :: '\n' :: r => r
  | r => r

/-- Where reading stands between two characters of a string over several lines. A backslash at
the end of a line removes the break and all blanks and breaks behind it. -/
inductive BlockState where
  | plain
  | quotes (count : Nat)
  | escape
  | hex (value : Nat) (left : Nat)
  | lineEnd
  | trimming

/-- The end of a string over several lines: quotes that go on behind the closing delimiter
belong to the string, two of them at most. -/
def closeBlock (quote : Char) (done r : List Char) : String × List Char :=
  let extra := ((r.take 2).takeWhile (· = quote)).length
  (String.ofList (done.reverse ++ List.replicate extra quote), r.drop extra)

def plainStep (quote : Char) (escapes : Bool) (done : List Char) (c : Char) (r : List Char) :
    Option (BlockState × List Char) :=
  if c = quote then some (.quotes 1, done)
  else if escapes && c = '\\' then some (.escape, done)
  else if c = '\n' then some (.plain, '\n' :: done)
  else if c = '\r' then if r.head? = some '\n' then some (.plain, '\r' :: done) else none
  else if isPlain c then some (.plain, c :: done)
  else none

def lineEndStep (done : List Char) (c : Char) (r : List Char) : Option (BlockState × List Char) :=
  if c = ' ' || c = '\t' then some (.lineEnd, done)
  else if c = '\n' then some (.trimming, done)
  else if c = '\r' && r.head? = some '\n' then some (.lineEnd, done)
  else none

def blockStep (quote : Char) (escapes : Bool) (state : BlockState) (done : List Char) (c : Char)
    (r : List Char) : Option (BlockState × List Char) :=
  match state with
  | .plain => plainStep quote escapes done c r
  | .quotes count =>
    if c = quote then some (.quotes (count + 1), done)
    else plainStep quote escapes (List.replicate count quote ++ done) c r
  | .escape =>
    match escape? c with
    | some (.char e) => some (.plain, e :: done)
    | some (.digits count) => some (.hex 0 count, done)
    | none => lineEndStep done c r
  | .hex value left =>
    match Text.hexDigit? c with
    | none => none
    | some d =>
      let value := 16 * value + d
      if 1 < left then some (.hex value (left - 1), done)
      else (charOfCode? value).map fun e => (.plain, e :: done)
  | .lineEnd => lineEndStep done c r
  | .trimming =>
    if c = ' ' || c = '\t' || c = '\n' then some (.trimming, done)
    else if c = '\r' && r.head? = some '\n' then some (.trimming, done)
    else plainStep quote escapes done c r

/-- A string over several lines, basic if it has escapes and literal if not. -/
def readBlock (quote : Char) (escapes : Bool) (state : BlockState) (done : List Char) :
    List Char → Option (String × List Char)
  | [] => none
  | c :: r =>
    match state with
    | .quotes 2 =>
      if c = quote then some (closeBlock quote done r)
      else match plainStep quote escapes (quote :: quote :: done) c r with
        | some (state, done) => readBlock quote escapes state done r
        | none => none
    | state =>
      match blockStep quote escapes state done c r with
      | some (state, done) => readBlock quote escapes state done r
      | none => none

def quotedString (s : List Char) : Option (String × List Char) :=
  match s with
  | '"' :: '"' :: '"' :: r => readBlock '"' true .plain [] (dropBreak r)
  | '\'' :: '\'' :: '\'' :: r => readBlock '\'' false .plain [] (dropBreak r)
  | '"' :: r => readBasic .plain [] r
  | '\'' :: r => readLiteral [] r
  | _ => none

end VisualQuery.Toml
