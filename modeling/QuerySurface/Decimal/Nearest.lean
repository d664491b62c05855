/-!
# Nearest double of a decimal

Decimals are read digit by digit into a natural number and a power of ten, and the double
nearest to that is taken. Powers beyond every double are cut off first, so the arithmetic
stays small whatever exponent is written.
-/

namespace QuerySurface.Decimal

/-- Value of a digit; letters go on behind nine. -/
def digitOf (c : Char) : Nat :=
  if c.isDigit then c.toNat - 48 else c.toLower.toNat - 87

/-- The natural number that digits write in a base. -/
def ofDigits (base : Nat) (digits : List Char) : Nat :=
  digits.foldl (fun value c => value * base + digitOf c) 0

/-- A power of ten above which every double is infinite and below whose inverse it is zero,
whatever a single digit stands in front. -/
def powerLimit : Int := 400

/-- The double nearest to `digits · 10 ^ exponent`. -/
def nearest (digits : Nat) (exponent : Int) : Float :=
  let size : Int := (toString digits).length + exponent
  if digits = 0 then 0.0
  else if powerLimit < size then 1.0 / 0.0
  else if size < -powerLimit then 0.0
  else Float.ofScientific digits (exponent < 0) exponent.natAbs

/-- A number with digits on both sides of a point, and an exponent. -/
structure Literal where
  /-- Whether it has a minus. -/
  negative : Bool
  /-- Digits in front of the point. -/
  whole : List Char
  /-- Digits behind the point. -/
  fraction : List Char
  /-- The exponent. -/
  exponent : Int
  deriving DecidableEq, Repr

/-- The double nearest to a literal. -/
def Literal.toDouble (literal : Literal) : Float :=
  let size :=
    nearest (ofDigits 10 (literal.whole ++ literal.fraction))
      (literal.exponent - literal.fraction.length)
  if literal.negative then -size else size

/-- A sign and what stands behind it. No sign counts as a plus. -/
def splitSign : List Char → Bool × List Char
  | '-' :: rest => (true, rest)
  | '+' :: rest => (false, rest)
  | text => (false, text)

/-- A decimal integer with an optional sign. -/
def integer? (text : List Char) : Option Int :=
  let (negative, digits) := splitSign text
  if digits.isEmpty || !digits.all Char.isDigit then none
  else
    let size : Int := ofDigits 10 digits
    some (if negative then -size else size)

/-- Whether an integer fits a signed word. -/
def fitsWord (value : Int) : Bool :=
  -Int.pow 2 63 ≤ value && value < Int.pow 2 63

/-- The exponent that may follow the digits of a number: nothing, or an `e` and an integer. -/
def exponent? : List Char → Option Int
  | [] => some 0
  | c :: rest => if c.toLower == 'e' then integer? rest else none

/-- A real number: digits with or without a point, at least one, and an exponent; or one of
the words for infinities and for what is no number. -/
def real? (text : List Char) : Option Float :=
  let (negative, body) := splitSign text
  let word := String.ofList (body.map Char.toLower)
  if word == "inf" || word == "infinity" then some (if negative then -1.0 / 0.0 else 1.0 / 0.0)
  else if word == "nan" then some (0.0 / 0.0)
  else
    let whole := body.takeWhile Char.isDigit
    let (fraction, rest) := match body.dropWhile Char.isDigit with
      | '.' :: rest => (rest.takeWhile Char.isDigit, rest.dropWhile Char.isDigit)
      | rest => ([], rest)
    if whole.isEmpty && fraction.isEmpty then none
    else (exponent? rest).map fun exponent => (Literal.mk negative whole fraction exponent).toDouble

end QuerySurface.Decimal
