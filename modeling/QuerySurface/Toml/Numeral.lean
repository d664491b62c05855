import QuerySurface.Toml.Quoting
import QuerySurface.Toml.Value

/-!
# Numbers, dates and times

Integers are decimal or, behind `0x`, `0o` and `0b`, of another base, and have to fit a
signed word. Real numbers have a point or an exponent, or are one of two words; what
rounds to infinity is refused. Single underscores may stand between digits. Four digits and a
hyphen start a date, two digits and a colon a time.
-/

namespace QuerySurface.Toml

/-- Digits behind a first one. A single underscore may stand in front of each. -/
def moreDigits (allowed : Char → Bool) : Scan (List Char)
  | [] => some ([], [])
  | ['_'] => none
  | '_' :: c :: rest => if allowed c then front c (moreDigits allowed rest) else none
  | c :: rest => if allowed c then front c (moreDigits allowed rest) else some ([], c :: rest)

/-- At least one digit. -/
def digitRun (allowed : Char → Bool) : Scan (List Char)
  | [] => none
  | c :: rest => if allowed c then front c (moreDigits allowed rest) else none

/-- Digits in front of a point: a zero alone, or digits that do not start with one. -/
def wholeDigits : Scan (List Char)
  | '0' :: rest => some (['0'], rest)
  | text => digitRun Char.isDigit text

/-- An integer as a value, if it fits. -/
def integerValue? (value : Int) : Option Value :=
  if Decimal.fitsWord value then some (.integer value) else none

/-- An integer in a base, behind the letter of the base. -/
def basedInteger (base : Nat) (allowed : Char → Bool) : Scan Value := fun text => do
  let (digits, rest) ← digitRun allowed text
  let value ← integerValue? (Decimal.ofDigits base digits)
  return (value, rest)

/-- A real number as a value, unless it is too large. -/
def realValue? (literal : Decimal.Literal) : Option Value :=
  let value := literal.toDouble
  if value == 1.0 / 0.0 then none else some (.real value)

/-- An exponent, if there is one. -/
def exponentPart : Scan (Option Int)
  | [] => some (none, [])
  | c :: rest =>
    if c = 'e' ∨ c = 'E' then do
      let (negative, rest) := Decimal.splitSign rest
      let (digits, rest) ← digitRun Char.isDigit rest
      let size : Int := Decimal.ofDigits 10 digits
      return (some (if negative then -size else size), rest)
    else some (none, c :: rest)

/-- A decimal number without its sign. -/
def decimalNumber (negative : Bool) : Scan Value := fun text => do
  let (whole, rest) ← wholeDigits text
  match rest with
  | '.' :: rest => do
    let (fraction, rest) ← digitRun Char.isDigit rest
    let (exponent, rest) ← exponentPart rest
    let value ← realValue? ⟨negative, whole, fraction, exponent.getD 0⟩
    return (value, rest)
  | rest => do
    let (exponent, rest) ← exponentPart rest
    let size : Int := Decimal.ofDigits 10 whole
    let value ← match exponent with
      | some exponent => realValue? ⟨negative, whole, [], exponent⟩
      | none => integerValue? (if negative then -size else size)
    return (value, rest)

/-- A number. -/
def number : Scan Value
  | '0' :: 'x' :: rest => basedInteger 16 isHexDigit rest
  | '0' :: 'o' :: rest => basedInteger 8 (fun c => '0' ≤ c && c ≤ '7') rest
  | '0' :: 'b' :: rest => basedInteger 2 (fun c => c == '0' || c == '1') rest
  | text =>
    let (negative, body) := Decimal.splitSign text
    match ['i', 'n', 'f'].isPrefixOf? body, ['n', 'a', 'n'].isPrefixOf? body with
    | some rest, _ => some (.real (if negative then -1.0 / 0.0 else 1.0 / 0.0), rest)
    | none, some rest => some (.real (0.0 / 0.0), rest)
    | none, none => decimalNumber negative body

/-- A number of exactly so many digits. -/
def fixedNumber (count : Nat) : Scan Nat := fun text => do
  let (digits, rest) ← exactly count Char.isDigit text
  return (Decimal.ofDigits 10 digits, rest)

/-- A number of exactly two digits behind a separator. -/
def nextPart (separator : Char) : Scan Nat
  | [] => none
  | c :: rest => if c = separator then fixedNumber 2 rest else none

/-- A date. -/
def date : Scan Date := fun text => do
  let (year, rest) ← fixedNumber 4 text
  let (month, rest) ← nextPart '-' rest
  let (day, rest) ← nextPart '-' rest
  let found : Date := ⟨year, month, day⟩
  if found.isValid then return (found, rest) else none

/-- The part of a second, cut off behind the ninth digit. -/
def secondPart : List Char → Nat × List Char
  | '.' :: rest =>
    let digits := (rest.takeWhile Char.isDigit).take 9
    if digits.isEmpty then (0, '.' :: rest)
    else (Decimal.ofDigits 10 digits * Nat.pow 10 (9 - digits.length), rest.dropWhile Char.isDigit)
  | text => (0, text)

/-- A time of day. -/
def timeOfDay : Scan Time := fun text => do
  let (hour, rest) ← fixedNumber 2 text
  let (minute, rest) ← nextPart ':' rest
  let (second, rest) ← nextPart ':' rest
  let (nano, rest) := secondPart rest
  let found : Time := ⟨hour, minute, second, nano⟩
  if found.isValid then return (found, rest) else none

/-- An offset, if there is one. -/
def offset : Scan (Option Offset)
  | [] => some (none, [])
  | c :: rest =>
    if c = 'Z' ∨ c = 'z' then some (some .universal, rest)
    else if c = '+' ∨ c = '-' then do
      let (hour, rest) ← fixedNumber 2 rest
      let (minute, rest) ← nextPart ':' rest
      if hour ≤ 23 ∧ minute ≤ 59 then
        let size : Int := hour * 60 + minute
        return (some (.ahead (if c = '-' then -size else size)), rest)
      else none
    else some (none, c :: rest)

/-- A date, and a time and an offset if they follow. -/
def dated : Scan Moment := fun text => do
  let (day, rest) ← date text
  let plain : Moment := ⟨some day, none, none⟩
  match rest with
  | [] => return (plain, [])
  | c :: more =>
    if c = 'T' ∨ c = 't' ∨ c = ' ' then
      match timeOfDay more with
      | some (time, more) => do
        let (offset, more) ← offset more
        return (⟨some day, some time, offset⟩, more)
      | none => return (plain, c :: more)
    else return (plain, c :: more)

/-- A date or a time, if a text starts like one; else a number. -/
def numeral (text : List Char) : Option (Value × List Char) :=
  let digits := (text.takeWhile Char.isDigit).length
  if digits = 4 ∧ text[4]? = some '-' then
    (dated text).map fun (moment, rest) => (.moment moment, rest)
  else if digits = 2 ∧ text[2]? = some ':' then
    (timeOfDay text).map fun (time, rest) => (.moment ⟨none, some time, none⟩, rest)
  else number text

end QuerySurface.Toml
