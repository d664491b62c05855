/-!
# TOML values

Values of the format in which settings are kept. Dates and times have a type of their own,
with the one text that they are shown as.
-/

namespace QuerySurface.Toml

/-- A day of the calendar. -/
structure Date where
  /-- The year. -/
  year : Nat
  /-- The month, from one. -/
  month : Nat
  /-- The day of the month, from one. -/
  day : Nat
  deriving DecidableEq, Repr, Inhabited

/-- A time of day. -/
structure Time where
  /-- The hour. -/
  hour : Nat
  /-- The minute. -/
  minute : Nat
  /-- The second, sixty in a leap second. -/
  second : Nat
  /-- The part of the second behind the point, in billionths. -/
  nano : Nat
  deriving DecidableEq, Repr, Inhabited

/-- How far a local time is from the universal one. -/
inductive Offset where
  /-- It is the universal one. -/
  | universal
  /-- It is so many minutes ahead. -/
  | ahead (minutes : Int)
  deriving DecidableEq, Repr, Inhabited

/-- A date, a time, or both, with an offset if it is fixed. -/
structure Moment where
  /-- The date. -/
  date : Option Date
  /-- The time. -/
  time : Option Time
  /-- The offset. -/
  offset : Option Offset
  deriving DecidableEq, Repr, Inhabited

/-- A number in decimal, filled up with zeros in front. -/
def padded (width n : Nat) : List Char :=
  let digits := (toString n).toList
  List.replicate (width - digits.length) '0' ++ digits

namespace Date

/-- Year, month and day, with hyphens between them. -/
def written (date : Date) : List Char :=
  padded 4 date.year ++ '-' :: padded 2 date.month ++ '-' :: padded 2 date.day

/-- Whether a year has a leap day. -/
def isLeapYear (year : Nat) : Bool :=
  year % 4 == 0 && (year % 100 != 0 || year % 400 == 0)

/-- Number of days of a month. -/
def daysIn (year month : Nat) : Nat :=
  if month = 2 then (if isLeapYear year then 29 else 28)
  else if [4, 6, 9, 11].contains month then 30
  else 31

/-- Whether the calendar has the day. -/
def isValid (date : Date) : Bool :=
  1 ≤ date.month && date.month ≤ 12 && 1 ≤ date.day && date.day ≤ daysIn date.year date.month

end Date

namespace Time

/-- Digits of the part of a second, without zeros behind. -/
def nanoDigits (nano : Nat) : List Char :=
  ((padded 9 nano).reverse.dropWhile (· == '0')).reverse

/-- Hour, minute and second, with colons between them; a part of a second if there is any. -/
def written (time : Time) : List Char :=
  padded 2 time.hour ++ ':' :: padded 2 time.minute ++ ':' :: padded 2 time.second ++
    (if time.nano = 0 then [] else '.' :: nanoDigits time.nano)

/-- Whether the clock shows the time. -/
def isValid (time : Time) : Bool :=
  time.hour ≤ 23 && time.minute ≤ 59 && time.second ≤ 60

end Time

/-- Hours and minutes with a sign, or the letter for none. -/
def Offset.written : Offset → List Char
  | .universal => ['Z']
  | .ahead minutes =>
    let size := minutes.natAbs
    (if minutes < 0 then '-' else '+') :: padded 2 (size / 60) ++ ':' :: padded 2 (size % 60)

/-- The parts of a moment that there are. A `T` stands between date and time. -/
def Moment.written (moment : Moment) : List Char :=
  (moment.date.elim [] Date.written) ++
    (if moment.date.isSome && moment.time.isSome then ['T'] else []) ++
    (moment.time.elim [] Time.written) ++ moment.offset.elim [] Offset.written

/-- A value. -/
inductive Value where
  /-- A text. -/
  | text (value : String)
  /-- An integer. -/
  | integer (value : Int)
  /-- A real number. -/
  | real (value : Float)
  /-- A truth value. -/
  | flag (value : Bool)
  /-- A date or time. -/
  | moment (value : Moment)
  /-- A list. -/
  | array (items : List Value)
  /-- Keys with values. -/
  | table (entries : List (String × Value))
  deriving Repr, Inhabited

/-- A list of texts. -/
def Value.texts (items : List String) : Value :=
  .array (items.map .text)

end QuerySurface.Toml
