import QuerySurface.Decimal.Double

/-!
# JSON values

Values of the data format that schema documents, plans and settings are exchanged in.
Integers in the range of 64-bit words are kept exact and every other number is a double.
Members of an object keep an order; values that are read from text have theirs sorted by
key, each key once.
-/

namespace QuerySurface.Json

/-- A number: an exact integer, or a double. -/
inductive Number where
  /-- An integer between `-2 ^ 63` and `2 ^ 64 - 1`. -/
  | integer (value : Int)
  /-- Any other number. -/
  | real (value : Float)
  deriving Repr, BEq, Inhabited

/-- A value of the data format. -/
inductive Value where
  /-- The absent value. -/
  | null
  /-- A truth value. -/
  | flag (value : Bool)
  /-- A number. -/
  | number (value : Number)
  /-- A text. -/
  | text (value : String)
  /-- A list of values. -/
  | array (items : List Value)
  /-- Keys with values, in order. -/
  | object (members : List (String × Value))
  deriving Repr, Inhabited

namespace Value

/-- A list of texts. -/
def texts (items : List String) : Value :=
  .array (items.map .text)

/-- A natural number. -/
def count (n : Nat) : Value :=
  .number (.integer n)

/-- The value of a text that may be absent. -/
def ofOption (value : Option String) : Value :=
  value.elim .null .text

/-- The member of a key, if the value is an object that has it. -/
def get? (value : Value) (key : String) : Option Value :=
  match value with
  | .object members => (members.find? (fun member => member.1 == key)).map (·.2)
  | _ => none

/-- Sets a key in a list of members that is sorted by key; an earlier value is replaced. -/
def put (key : String) (value : Value) : List (String × Value) → List (String × Value)
  | [] => [(key, value)]
  | (other, old) :: rest =>
    if key = other then (key, value) :: rest
    else if key < other then (key, value) :: (other, old) :: rest
    else (other, old) :: put key value rest

end Value

end QuerySurface.Json
