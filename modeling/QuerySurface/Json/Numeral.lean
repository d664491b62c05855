import QuerySurface.Json.Value
import QuerySurface.Json.Token
import QuerySurface.Decimal.Nearest

/-!
# Values of numerals

A numeral without fraction and exponent is an exact integer as long as it fits a 64-bit
word. Every other numeral is a double: as many leading digits as fit a word are kept, the
rest counts as zeros, and one multiplication or division by a power of ten follows. A
numeral above the largest double has no value.
-/

namespace QuerySurface.Json

/-- The largest natural number that fits a word. -/
def wordLimit : Nat := Nat.pow 2 64 - 1

/-- Reads digits while the number fits a word. The result is the number and the digits that
are left. -/
def leadingDigits (value : Nat) : List Char → Nat × List Char
  | [] => (value, [])
  | c :: rest =>
    let next := value * 10 + Decimal.digitOf c
    if next ≤ wordLimit then leadingDigits next rest
    else (value, c :: rest)

/-- Ten to a power that a double can hold, the largest being 308. -/
def powerOfTen (exponent : Nat) : Float :=
  Float.ofScientific 1 false exponent

/-- Divides by a power of ten, in steps that a double can hold. -/
def divideByPower (value : Float) (exponent : Nat) : Float :=
  if exponent ≤ 308 then value / powerOfTen exponent
  else if value == 0 then value
  else divideByPower (value / powerOfTen 308) (exponent - 308)
termination_by exponent

/-- The double `digits · 10 ^ exponent`, if it is not too large. -/
def scaled? (digits : Nat) (exponent : Int) : Option Float :=
  let value := digits.toUInt64.toFloat
  if exponent < 0 then some (divideByPower value (-exponent).toNat)
  else if exponent ≤ 308 then
    let product := value * powerOfTen exponent.toNat
    if product.isInf then none else some product
  else if value == 0 then some value
  else none

namespace Numeral

/-- The exponent as written, zero if there is none. -/
def writtenExponent (numeral : Numeral) : Int :=
  match numeral.exponent with
  | none => 0
  | some (negative, digits) =>
    let size : Int := Decimal.ofDigits 10 digits
    if negative then -size else size

/-- The size of a numeral as a double, without its sign. -/
def magnitude? (numeral : Numeral) : Option Float :=
  let (front, dropped) := leadingDigits 0 numeral.whole
  let (digits, ignored) := leadingDigits front (numeral.fraction.getD [])
  let kept : Int := (numeral.fraction.getD []).length - ignored.length
  scaled? digits (dropped.length - kept + numeral.writtenExponent)

/-- The number that a numeral stands for; none above the largest double. -/
def value? (numeral : Numeral) : Option Number :=
  match numeral.fraction, numeral.exponent, leadingDigits 0 numeral.whole with
  | none, none, (value, []) =>
    if !numeral.negative then some (.integer value)
    else if value = 0 ∨ Nat.pow 2 63 < value then some (.real (-value.toUInt64.toFloat))
    else some (.integer (-value))
  | _, _, _ =>
    numeral.magnitude?.map fun size => .real (if numeral.negative then -size else size)

end Numeral

end QuerySurface.Json
