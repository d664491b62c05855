import QuerySurface.Decimal.Shortest

/-!
# Texts of doubles

A double is taken apart into sign, digits and power of ten. Two texts are made of these:
the one of data files, which always shows that the number is a fraction and turns to an
exponent outside a range, and the positional one, which never does.
-/

namespace QuerySurface.Decimal

/-- What a double is. -/
inductive Shape where
  /-- Not a number. -/
  | nan
  /-- An infinity. -/
  | infinite (negative : Bool)
  /-- A finite value; zero has the digits zero. -/
  | finite (negative : Bool) (magnitude : Scientific)

/-- Reads sign, exponent and fraction from the binary format. -/
def shape (x : Float) : Shape :=
  let bits := x.toBits.toNat
  let negative := bits / Nat.pow 2 63 == 1
  let exponent : Nat := bits / Nat.pow 2 52 % Nat.pow 2 11
  let fraction : Nat := bits % Nat.pow 2 52
  if exponent == 2047 then
    if fraction == 0 then .infinite negative else .nan
  else if exponent == 0 && fraction == 0 then .finite negative ⟨0, 0⟩
  else if exponent == 0 then .finite negative (shortest fraction (-1074) false)
  else
    .finite negative
      (shortest (Nat.pow 2 52 + fraction) ((exponent : Int) - 1075)
        (fraction == 0 && exponent != 1))

/-- `count` zeros. -/
def zeros (count : Int) : String :=
  String.ofList (List.replicate count.toNat '0')

/-- Digits with a point after the first `whole` of them, filled up with zeros on either side;
without a fraction the text is that of an integer. -/
def positional (digits : String) (whole : Int) : String × String :=
  let count : Int := digits.length
  if whole ≤ 0 then ("0", zeros (-whole) ++ digits)
  else if count ≤ whole then (digits ++ zeros (whole - count), "")
  else
    (String.ofList (digits.toList.take whole.toNat),
      String.ofList (digits.toList.drop whole.toNat))

/-- Text of a double in a data file: positional while the point stands at most five zeros in
front or sixteen digits behind, with `.0` where there is no fraction; else scientific. -/
def dataText (x : Float) : String :=
  match shape x with
  | .nan => "NaN"
  | .infinite negative => if negative then "-inf" else "inf"
  | .finite negative magnitude =>
    let sign := if negative then "-" else ""
    let digits := toString magnitude.digits
    let whole : Int := digits.length + magnitude.exponent
    if magnitude.digits = 0 then sign ++ "0.0"
    else if -5 < whole ∧ whole ≤ 16 then
      let (front, behind) := positional digits whole
      sign ++ front ++ "." ++ (if behind.isEmpty then "0" else behind)
    else
      let rest := digits.toList.drop 1
      let mantissa := String.ofList (digits.toList.take 1) ++
        (if rest.isEmpty then "" else "." ++ String.ofList rest)
      sign ++ mantissa ++ "e" ++ toString (whole - 1)

/-- Positional text of a double, an integer without a point. -/
def plainText (x : Float) : String :=
  match shape x with
  | .nan => "NaN"
  | .infinite negative => if negative then "-inf" else "inf"
  | .finite negative magnitude =>
    let sign := if negative then "-" else ""
    let digits := toString magnitude.digits
    if magnitude.digits = 0 then sign ++ "0"
    else
      let (front, behind) := positional digits (digits.length + magnitude.exponent)
      sign ++ front ++ (if behind.isEmpty then "" else "." ++ behind)

end QuerySurface.Decimal
