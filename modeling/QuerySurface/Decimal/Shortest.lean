/-!
# Shortest decimal of a binary fraction

A finite double is `m · 2 ^ q`. Every real number between the halfway points to its two
neighbours reads back as it, and among the decimals in that interval the shortest is
written: the fewest digits, and of those the nearest. All arithmetic is on natural
numbers, so nothing here is rounded.
-/

namespace QuerySurface.Decimal

/-- A decimal `digits · 10 ^ exponent`. -/
structure Scientific where
  /-- The digits, read as one natural number. -/
  digits : Nat
  /-- Power of ten that the digits are multiplied with. -/
  exponent : Int
  deriving Repr, DecidableEq

/-- A positive value with the interval that reads back as it, all three over one denominator. -/
structure Interval where
  /-- Numerator of the lower end. -/
  low : Nat
  /-- Numerator of the value. -/
  value : Nat
  /-- Numerator of the upper end. -/
  high : Nat
  /-- Common denominator. -/
  denominator : Nat
  /-- Whether the two ends read back as the value too. -/
  closed : Bool

/-- The interval of `m · 2 ^ q`. Below a power of two the neighbour is half as far away. -/
def Interval.ofBinary (m : Nat) (q : Int) (narrowBelow : Bool) : Interval :=
  let scale := Nat.pow 2 (q - 2).toNat
  { low := (4 * m - (if narrowBelow then 1 else 2)) * scale
    value := 4 * m * scale
    high := (4 * m + 2) * scale
    denominator := Nat.pow 2 (2 - q).toNat
    closed := m % 2 == 0 }

/-- Whether `candidate · 10 ^ exponent` lies in the interval. -/
def Interval.holds (interval : Interval) (candidate : Nat) (exponent : Int) : Bool :=
  let up := Nat.pow 10 (-exponent).toNat
  let here := candidate * Nat.pow 10 exponent.toNat * interval.denominator
  if interval.closed then interval.low * up ≤ here && here ≤ interval.high * up
  else interval.low * up < here && here < interval.high * up

/-- The point of the grid `10 ^ exponent` that is nearest to the value among the two
neighbours that read back as it. -/
def Interval.onGrid (interval : Interval) (exponent : Int) : Option Nat :=
  let numerator := interval.value * Nat.pow 10 (-exponent).toNat
  let denominator := interval.denominator * Nat.pow 10 exponent.toNat
  let below := numerator / denominator
  let above := below + 1
  match interval.holds below exponent, interval.holds above exponent with
  | true, true =>
    if 2 * (numerator % denominator) < denominator ∨
        (2 * (numerator % denominator) = denominator ∧ below % 2 = 0)
    then some below else some above
  | true, false => some below
  | false, true => some above
  | false, false => none

/-- Tries ever finer grids, at most `count` of them. -/
def Interval.shortestFrom (interval : Interval) (exponent : Int) : Nat → Option Scientific
  | 0 => none
  | count + 1 =>
    match interval.onGrid exponent with
    | some digits => if digits = 0 then interval.shortestFrom (exponent - 1) count
        else some ⟨digits, exponent⟩
    | none => interval.shortestFrom (exponent - 1) count

/-- Number of decimal digits of a natural number. -/
def digitCount (n : Nat) : Nat :=
  (Nat.toDigits 10 n).length

/-- The power of ten of the first digit, for a value `numerator / denominator`. -/
def leadingExponent (numerator denominator : Nat) : Int :=
  if denominator ≤ numerator then (digitCount (numerator / denominator) : Int) - 1
  else -(digitCount (denominator / numerator) : Int)

/-- Moves trailing zeros of the digits into the exponent. -/
def Scientific.normalize (decimal : Scientific) : Scientific :=
  go decimal.digits decimal.exponent decimal.digits
where
  /-- Divides by ten while that leaves no remainder, at most `fuel` times. -/
  go (digits : Nat) (exponent : Int) : Nat → Scientific
    | 0 => ⟨digits, exponent⟩
    | fuel + 1 =>
      if digits ≠ 0 ∧ digits % 10 = 0 then go (digits / 10) (exponent + 1) fuel
      else ⟨digits, exponent⟩

/-- The shortest decimal that reads back as `m · 2 ^ q`, for positive `m`. -/
def shortest (m : Nat) (q : Int) (narrowBelow : Bool) : Scientific :=
  let interval := Interval.ofBinary m q narrowBelow
  let start := leadingExponent interval.value interval.denominator + 1
  match interval.shortestFrom start 20 with
  | some decimal => decimal.normalize
  | none => ⟨0, 0⟩

end QuerySurface.Decimal
