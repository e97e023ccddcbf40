import VisualQuery.Decimal.Shortest

/-!
Ways to write a floating number down. A style says for which powers of ten the number is written
positionally; for the others it has one digit before the point and an exponent. Positional
numbers always keep a digit on both sides of the point.
-/

namespace VisualQuery.Decimal

/-- The powers of the first digit that are written positionally, how wide an exponent is, and which
of two equally near decimals is written. -/
structure Style where
  positional : Int → Bool
  exponentWidth : Nat
  tie : Tie

def padZeros (width : Nat) (digits : List Char) : List Char :=
  List.replicate (width - digits.length) '0' ++ digits

def positionalText (d : Digits) : List Char :=
  let ds := Nat.toDigits 10 d.digits
  if d.power < 0 then '0' :: '.' :: List.replicate (-d.power - 1).toNat '0' ++ ds
  else
    let before := d.power.toNat + 1
    let whole := ds.take before ++ List.replicate (before - ds.length) '0'
    let fraction := ds.drop before
    whole ++ '.' :: (if fraction.isEmpty then ['0'] else fraction)

def exponentText (width : Nat) (d : Digits) : List Char :=
  let sign := if d.power < 0 then '-' else '+'
  let exponent := sign :: padZeros width (Nat.toDigits 10 d.power.natAbs)
  match Nat.toDigits 10 d.digits with
  | [] => 'e' :: exponent
  | first :: [] => first :: 'e' :: exponent
  | first :: rest => first :: '.' :: rest ++ 'e' :: exponent

def Style.write (style : Style) (x : Float) : String :=
  let signed (negative : Bool) (cs : List Char) := if negative then '-' :: cs else cs
  String.ofList <| match Reading.ofFloat style.tie x with
  | .notANumber => "NaN".toList
  | .infinite negative => signed negative "inf".toList
  | .zero negative => signed negative "0.0".toList
  | .finite negative d =>
    signed negative (if style.positional d.power then positionalText d
      else exponentText style.exponentWidth d)

/-- Positional from the fifth place behind the point up to sixteen places before it; the last digit
is even where there is a choice. -/
def scientific : Style := ⟨fun power => -5 ≤ power && power ≤ 15, 1, .toEven⟩

/-- Positional throughout; the larger decimal is written where there is a choice. -/
def plain : Style := ⟨fun _ => true, 0, .up⟩

end VisualQuery.Decimal
