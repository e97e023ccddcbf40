import VisualQuery.Decimal.Style
import VisualQuery.Json.Fault

/-!
Numbers in JSON text. A whole number of 64 bits is kept exactly; every other number becomes a
floating one, by one floating multiplication or division of its leading digits with a power of
ten, so that it need not be the nearest floating number to what is written.
-/

namespace VisualQuery.Json

inductive Number where
  | whole (n : Int)
  | floating (x : Float)
deriving Repr

def Number.found : Number → Found
  | .whole n => .integer n
  | .floating x => .floating (Decimal.scientific.write x)

/-- A number as written: sign, digits before and behind the point, exponent. -/
structure Numeral where
  negative : Bool
  whole : List Char
  fraction : List Char
  exponent : Option (Bool × List Char)
deriving DecidableEq, Repr

inductive NumeralFault where
  /-- The text ends where a digit is wanted. -/
  | ends
  /-- Something else stands where a digit is wanted, or a digit follows a leading zero. -/
  | malformed
deriving DecidableEq, Repr

def someDigits (s : List Char) : Except NumeralFault (List Char × List Char) :=
  match s with
  | [] => .error .ends
  | c :: _ =>
    if c.isDigit then .ok (s.takeWhile Char.isDigit, s.dropWhile Char.isDigit)
    else .error .malformed

def exponentPart (s : List Char) :
    Except NumeralFault (Option (Bool × List Char) × List Char) :=
  let signed (negative : Bool) (r : List Char) := do
    let (digits, r) ← someDigits r
    pure (some (negative, digits), r)
  match s with
  | c :: r =>
    if c = 'e' || c = 'E' then
      match r with
      | '+' :: r => signed false r
      | '-' :: r => signed true r
      | r => signed false r
    else .ok (none, s)
  | [] => .ok (none, s)

def fractionPart (s : List Char) : Except NumeralFault (List Char × List Char) :=
  match s with
  | '.' :: r => someDigits r
  | r => .ok ([], r)

/-- The digits before the point: a single zero, or digits that start with another one. -/
def wholePart (s : List Char) : Except NumeralFault (List Char × List Char) := do
  let (digits, r) ← someDigits s
  match digits with
  | '0' :: _ :: _ => .error .malformed
  | _ => .ok (digits, r)

/-- The numeral a text starts with, its sign having been read, and what follows it. -/
def Numeral.scan (negative : Bool) (s : List Char) : Except NumeralFault (Numeral × List Char) := do
  let (whole, r) ← wholePart s
  let (fraction, r) ← fractionPart r
  let (exponent, r) ← exponentPart r
  pure (⟨negative, whole, fraction, exponent⟩, r)

def digitValue (c : Char) : Nat := c.toNat - '0'.toNat

def takeDigits : Nat → List Char → Nat × List Char
  | n, [] => (n, [])
  | n, c :: r =>
    let next := 10 * n + digitValue c
    if next < Nat.pow 2 64 then takeDigits next r else (n, c :: r)

/-- Multiplies by a power of ten. Below the table of powers it divides by 10^308 first, which
takes a 64-bit number to zero within three rounds; above it, only zero stays in range. -/
def scaled : Nat → Float → Int → Except Fault Float
  | rounds, x, exponent =>
    if exponent.natAbs ≤ 308 then
      let power := Float.ofScientific 1 false exponent.natAbs
      if 0 ≤ exponent then
        if (x * power).isInf then .error .outOfRange else .ok (x * power)
      else .ok (x / power)
    else if x == 0 then .ok x
    else if 0 ≤ exponent then .error .outOfRange
    else match rounds with
      | 0 => .ok 0
      | rounds + 1 => scaled rounds (x / Float.ofScientific 1 false 308) (exponent + 308)

def maxExponent : Nat := Nat.pow 2 31 - 1

/-- The exponent written, kept within 32 bits when it is added to the one from the digits. -/
def totalExponent (fromDigits : Int) (negative : Bool) (written : Nat) : Int :=
  let sum := if negative then fromDigits - written else fromDigits + written
  max (-Int.ofNat (maxExponent + 1)) (min (Int.ofNat maxExponent) sum)

def Numeral.number (n : Numeral) : Except Fault Number :=
  let (significand, dropped) := takeDigits 0 n.whole
  let (significand, left) := takeDigits significand n.fraction
  let fromDigits : Int := dropped.length - (n.fraction.length - left.length : Nat)
  let signed (x : Float) : Number := .floating (if n.negative then -x else x)
  let isWhole := n.fraction.isEmpty && n.exponent.isNone && dropped.isEmpty
  if isWhole && !n.negative then .ok (.whole significand)
  else if isWhole && 0 < significand && significand ≤ Nat.pow 2 63 then .ok (.whole (-significand))
  else
    match n.exponent with
    | none => signed <$> scaled 3 (Float.ofNat significand) fromDigits
    | some (negative, digits) =>
      let written := digits.foldl (fun e c => 10 * e + digitValue c) 0
      if maxExponent < written then
        if significand != 0 && !negative then .error .outOfRange else .ok (signed 0)
      else signed <$> scaled 3 (Float.ofNat significand) (totalExponent fromDigits negative written)

end VisualQuery.Json
