import VisualQuery.Text.Hex

/-!
Scalars of TOML text other than strings: truth values, whole and floating numbers, and moments of
time. A scalar is a word that matches one of their forms as a whole. The form of a number is looser
than what has a value: a word may be written like a number and be none.
-/

namespace VisualQuery.Toml

inductive Scalar where
  | text (s : String)
  | integer (n : Int)
  | floating (x : Float)
  /-- A word that is written like a number but has no value: it is out of range, lacks digits, or
  has letters among them. -/
  | noNumber
  | boolean (b : Bool)
  /-- A date, a time, or both; nothing asks which. -/
  | moment
deriving Repr

def fitsSigned (bits : Nat) (n : Int) : Bool :=
  -Int.ofNat (Nat.pow 2 (bits - 1)) ≤ n && n < Int.ofNat (Nat.pow 2 (bits - 1))

def fitsUnsigned (bits : Nat) (n : Int) : Bool := 0 ≤ n && n < Int.ofNat (Nat.pow 2 bits)

/-- A whole number has a value if it fits into 128 bits, with a sign or without. -/
def Scalar.ofInteger (n : Int) : Scalar :=
  if fitsSigned 128 n || fitsUnsigned 128 n then .integer n else .noNumber

/-- Whether a scalar can be passed over: whatever has a value can. -/
def Scalar.hasValue : Scalar → Bool
  | .noNumber => false
  | _ => true

/-- Whether a scalar is one that every document may hold: whole numbers have 64 bits there, one of
them the sign. -/
def Scalar.isCommon : Scalar → Bool
  | .noNumber => false
  | .integer n => fitsSigned 64 n
  | _ => true

/-! ### Numbers -/

/-- Whether each underscore has a digit of a sort behind it and in front of it. `led` says whether
a digit stands in front of the text. -/
def spaced (isDigit : Char → Bool) (led : Bool) : List Char → Bool
  | [] => true
  | '_' :: r => led && r.head?.any isDigit && spaced isDigit false r
  | c :: r => spaced isDigit (isDigit c) r

def dropUnderscores (s : List Char) : List Char := s.filter (· ≠ '_')

def isHexDigit (c : Char) : Bool := (Text.hexDigit? c).isSome

def ofDigits (base : Nat) (digits : List Char) : Nat :=
  digits.foldl (fun n c => base * n + (Text.hexDigit? c).getD 0) 0

/-- The digits and underscores that a text starts with, and the text behind them. -/
def digitRun (s : List Char) : List Char × List Char :=
  let belongs (c : Char) : Bool := c.isDigit || c = '_'
  (s.takeWhile belongs, s.dropWhile belongs)

inductive Sign where
  | plus
  | minus
deriving DecidableEq, Repr

def splitSign : List Char → Sign × List Char
  | '-' :: r => (.minus, r)
  | '+' :: r => (.plus, r)
  | r => (.plus, r)

def Sign.apply : Sign → Int → Int
  | .minus, n => -n
  | .plus, n => n

/-- The whole number to a base that a word is from behind the letter of the base. -/
def basedInteger? (base : Nat) (isDigit : Char → Bool) (s : List Char) : Option Scalar :=
  let digits := dropUnderscores s
  if digits.all isDigit && spaced isHexDigit false s then
    some (if digits.isEmpty then .noNumber else .ofInteger (Int.ofNat (ofDigits base digits)))
  else none

/-- The decimal whole number that a word is from behind its sign: digits without a leading zero,
then nothing or an underscore. An underscore wants digits around it, but letters count as such
there, and what stands between two underscores is not looked at; then there is no value. -/
def decimalInteger? (sign : Sign) (s : List Char) : Option Scalar :=
  let digits := dropUnderscores s
  let opened := match s.dropWhile Char.isDigit with
    | [] => !s.isEmpty
    | c :: _ => c = '_'
  let leadingZero := s.head? = some '0' && 1 < s.length
  if opened && !leadingZero && spaced isHexDigit false s then
    some (if digits.all Char.isDigit then .ofInteger (sign.apply (Int.ofNat (ofDigits 10 digits)))
      else .noNumber)
  else none

def floatOf (sign : Sign) (whole fraction : List Char) (exponent : Int) : Scalar :=
  let significand := ofDigits 10 (whole ++ fraction)
  let power := exponent - fraction.length
  -- beyond these powers the number is out of range or zero, whatever its digits
  let bound : Int := 400 + (whole ++ fraction).length
  let x :=
    if significand = 0 then 0
    else if bound < power then Float.ofScientific 1 false 400
    else if power < -bound then 0
    else Float.ofScientific significand (power < 0) power.natAbs
  if x.isInf then .noNumber else .floating (if sign = .minus then -x else x)

def fraction? : List Char → Option (List Char × List Char)
  | '.' :: r =>
    let (run, r) := digitRun r
    let digits := dropUnderscores run
    if digits.isEmpty then none else some (digits, r)
  | r => some ([], r)

/-- The exponent that a text is as a whole; nothing stands for zero. -/
def exponent? : List Char → Option Int
  | [] => some 0
  | mark :: r =>
    let (sign, r) := splitSign r
    let (run, r) := digitRun r
    let digits := dropUnderscores run
    if (mark = 'e' || mark = 'E') && !digits.isEmpty && r.isEmpty then
      some (sign.apply (Int.ofNat (ofDigits 10 digits)))
    else none

/-- The floating number that a word is from behind its sign: it has a fraction or an exponent. -/
def decimalFloat? (sign : Sign) (s : List Char) : Option Scalar := do
  let (run, r) := digitRun s
  let whole := dropUnderscores run
  let leadingZero := s.head? = some '0' && 1 < whole.length
  if whole.isEmpty || leadingZero || !spaced Char.isDigit false s then none
  else
    let (fraction, r) ← fraction? r
    let exponent ← exponent? r
    some (floatOf sign whole fraction exponent)

/-- The decimal number that a word is from behind its sign. A point or the mark of an exponent
makes it a floating one. -/
def decimalNumber? (sign : Sign) (s : List Char) : Option Scalar :=
  match s with
  | ['i', 'n', 'f'] => some (.floating (if sign = .minus then -(1.0 / 0.0) else 1.0 / 0.0))
  | ['n', 'a', 'n'] => some (.floating (0.0 / 0.0))
  | s =>
    if s.any fun c => c = '.' || c = 'e' || c = 'E' then decimalFloat? sign s
    else decimalInteger? sign s

/-- The number that a word is; one to another base than ten has no sign. -/
def number? (s : List Char) : Option Scalar :=
  match s with
  | '0' :: 'x' :: r => basedInteger? 16 isHexDigit r
  | '0' :: 'o' :: r => basedInteger? 8 (fun c => '0' ≤ c && c ≤ '7') r
  | '0' :: 'b' :: r => basedInteger? 2 (fun c => c = '0' || c = '1') r
  | s =>
    let (sign, r) := splitSign s
    decimalNumber? sign r

/-! ### Moments of time -/

def twoDigits (a b : Char) : Option Nat :=
  if a.isDigit && b.isDigit then some (ofDigits 10 [a, b]) else none

def daysIn (year month : Nat) : Nat :=
  match month with
  | 2 => if year % 4 = 0 && (year % 100 ≠ 0 || year % 400 = 0) then 29 else 28
  | 4 | 6 | 9 | 11 => 30
  | _ => 31

def date? : List Char → Option (List Char)
  | a :: b :: c :: d :: '-' :: m :: n :: '-' :: x :: y :: r => do
    let year := 100 * (← twoDigits a b) + (← twoDigits c d)
    let month ← twoDigits m n
    let day ← twoDigits x y
    if 1 ≤ month && month ≤ 12 && 1 ≤ day && day ≤ daysIn year month then some r else none
  | _ => none

def behindFraction : List Char → Option (List Char)
  | '.' :: c :: r => if c.isDigit then some (r.dropWhile Char.isDigit) else none
  | '.' :: [] => none
  | r => some r

/-- The time of day a word starts with, if it does; the word behind it. Seconds may be left
out, and a leap second is allowed. -/
def time? : List Char → Option (List Char)
  | h :: i :: ':' :: m :: n :: r => do
    let hour ← twoDigits h i
    let minute ← twoDigits m n
    if 23 < hour || 59 < minute then none
    else match r with
      | ':' :: s :: t :: r => do
        let second ← twoDigits s t
        if 60 < second then none else behindFraction r
      | ':' :: _ => none
      | r => some r
  | _ => none

def isZone : List Char → Bool
  | [] => true
  | ['Z'] | ['z'] => true
  | sign :: h :: i :: ':' :: m :: n :: [] =>
    (sign = '+' || sign = '-') &&
      match twoDigits h i, twoDigits m n with
      | some hour, some minute => hour ≤ 23 && minute ≤ 59
      | _, _ => false
  | _ => false

/-- Whether a word is a date, a time, or both, the latter with or without a zone. -/
def isMoment (s : List Char) : Bool :=
  match date? s with
  | some [] => true
  | some (c :: r) =>
    (c = 'T' || c = 't' || c = ' ') &&
      match time? r with
      | some zone => isZone zone
      | none => false
  | none => time? s = some []

/-! ### Words -/

def wordEnds : List Char := ['=', ',', '[', ']', '\x7b', '\x7d', ' ', '\t', '#', '\r', '\n']

/-- Whether a character belongs to a word; quotes inside one do. -/
def isWordChar (c : Char) : Bool := !wordEnds.contains c

def Scalar.ofWord? (s : List Char) : Option Scalar :=
  match s with
  | ['t', 'r', 'u', 'e'] => some (.boolean true)
  | ['f', 'a', 'l', 's', 'e'] => some (.boolean false)
  | s =>
    if isMoment s then some .moment else number? s

/-- The word a text starts with, and the text behind it. A date takes a time behind a single
space along. -/
def splitWord (s : List Char) : List Char × List Char :=
  let word := s.takeWhile isWordChar
  let rest := s.dropWhile isWordChar
  match date? word, rest with
  | some [], ' ' :: c :: r =>
    if c.isDigit then
      (word ++ ' ' :: (c :: r).takeWhile isWordChar, (c :: r).dropWhile isWordChar)
    else (word, rest)
  | _, _ => (word, rest)

end VisualQuery.Toml
