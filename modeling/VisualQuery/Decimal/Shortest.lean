/-!
The shortest decimal of a floating number: of all decimals that lie nearer to the number than to
its floating neighbours, one with the fewest digits, and of those the nearest. Two can be equally
near; which of them is taken is up to the caller.

The interval of reals that round to m · 2^q ends half a step above and below; the lower half step
is shorter where m is a power of two, because the numbers below lie closer together. An end
belongs to the interval when m is even, since a tie rounds to the even neighbour. Everything is
compared in natural numbers, four times the value being whole on the finest grid needed.
-/

namespace VisualQuery.Decimal

/-- A positive decimal: its digits as a whole number and the power of ten of the first one. -/
structure Digits where
  digits : Nat
  power : Int
deriving DecidableEq, Repr

inductive Tie where
  /-- The one that ends in an even digit. -/
  | toEven
  /-- The larger one. -/
  | up
deriving DecidableEq, Repr

/-- The reals around a positive floating number, over one denominator. -/
structure Interval where
  low : Nat
  value : Nat
  high : Nat
  denominator : Nat
  closed : Bool

/-- The interval of m · 2^q; `shortBelow` says that the neighbour below is half as far. -/
def Interval.around (m : Nat) (q : Int) (shortBelow : Bool) : Interval :=
  let low := if shortBelow then 4 * m - 1 else 4 * m - 2
  let scale := Nat.pow 2 (q - 2).toNat
  ⟨low * scale, 4 * m * scale, (4 * m + 2) * scale, Nat.pow 2 (2 - q).toNat, m % 2 == 0⟩

/-- Whether d · 10^k, given as a fraction, lies in the interval. -/
def Interval.contains (i : Interval) (d : Nat) (k : Int) : Bool :=
  let point := d * Nat.pow 10 k.toNat * i.denominator
  let unit := Nat.pow 10 (-k).toNat
  if i.closed then i.low * unit ≤ point && point ≤ i.high * unit
  else i.low * unit < point && point < i.high * unit

def Interval.power (i : Interval) : Int :=
  if i.denominator ≤ i.value then
    Int.ofNat ((Nat.toDigits 10 (i.value / i.denominator)).length - 1)
  else
    -- the first power that lifts the value to one or more
    match (List.range 400).find? fun j => i.denominator ≤ i.value * Nat.pow 10 j with
    | some j => -(Int.ofNat j)
    | none => 0

/-- The point of the grid 10^k that stands for the value, if one of its two neighbours there
lies in the interval: the nearer one if it does. -/
def Interval.onGrid (tie : Tie) (i : Interval) (k : Int) : Option Nat :=
  let top := i.value * Nat.pow 10 (-k).toNat
  let unit := Nat.pow 10 k.toNat * i.denominator
  let below := top / unit
  let rest := top % unit
  let nearest :=
    if 2 * rest < unit then below
    else if unit < 2 * rest then below + 1
    else if tie = .toEven && below % 2 == 0 then below
    else below + 1
  let other := if nearest == below then below + 1 else below
  if 0 < nearest && i.contains nearest k then some nearest
  else if 0 < other && i.contains other k then some other
  else none

/-- Removes the zeros a whole number ends in; a number below 10^fuel loses them all. -/
def dropZeros : Nat → Nat → Nat
  | 0, n => n
  | fuel + 1, n => if n != 0 && n % 10 == 0 then dropZeros fuel (n / 10) else n

/-- The shortest decimal in the interval; seventeen digits always suffice. -/
def Interval.shortest (tie : Tie) (i : Interval) : Digits :=
  let power := i.power
  match (List.range 17).findSome? fun (n : Nat) =>
      (i.onGrid tie (power - n)).map fun d => (d, power - n) with
  | none => ⟨0, 0⟩
  | some (d, k) =>
    let length := (Nat.toDigits 10 d).length
    ⟨dropZeros 20 d, k + length - 1⟩

inductive Reading where
  | zero (negative : Bool)
  | infinite (negative : Bool)
  | notANumber
  | finite (negative : Bool) (digits : Digits)
deriving DecidableEq, Repr

/-- A floating number as sign and shortest decimal. -/
def Reading.ofFloat (tie : Tie) (x : Float) : Reading :=
  let bits := x.toBits.toNat
  let hidden := Nat.pow 2 52
  let negative := Nat.pow 2 63 ≤ bits
  let exponent := bits / hidden % 2048
  let fraction := bits % hidden
  if exponent == 2047 then if fraction == 0 then .infinite negative else .notANumber
  else if exponent == 0 then
    if fraction == 0 then .zero negative
    else .finite negative ((Interval.around fraction (-1074) false).shortest tie)
  else
    let q := Int.ofNat exponent - 1075
    .finite negative
      ((Interval.around (hidden + fraction) q (fraction == 0 && exponent != 1)).shortest tie)

end VisualQuery.Decimal
