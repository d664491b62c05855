import QuerySurface.Decimal.Nearest
import QuerySurface.Json.Value
import QuerySurface.Toml.Value

/-!
# Raw settings

Settings as they stand in their sources, before they are given types. Both file formats are
turned into these, and so are the variables of the environment.
-/

namespace QuerySurface.Settings

/-- A raw setting. -/
inductive Raw where
  /-- Not set. -/
  | nothing
  /-- A truth value. -/
  | flag (value : Bool)
  /-- An integer. -/
  | integer (value : Int)
  /-- A real number. -/
  | real (value : Float)
  /-- A text. -/
  | text (value : String)
  /-- A list. -/
  | list (items : List Raw)
  /-- Names with settings. -/
  | table (entries : List (String × Raw))
  deriving Repr, Inhabited

namespace Raw

/-- A number of a data file. An integer that does not fit a signed word counts as real. -/
def ofNumber : Json.Number → Raw
  | .integer value =>
    if Decimal.fitsWord value then .integer value else .real value.toNat.toUInt64.toFloat
  | .real value => .real value

mutual

/-- The settings of a JSON file. -/
def ofJson : Json.Value → Raw
  | .null => .nothing
  | .flag value => .flag value
  | .number value => ofNumber value
  | .text value => .text value
  | .array items => .list (ofJsonItems items)
  | .object members => .table (ofJsonMembers members)

/-- Elements of a JSON list. -/
def ofJsonItems : List Json.Value → List Raw
  | [] => []
  | item :: rest => ofJson item :: ofJsonItems rest

/-- Members of a JSON object. -/
def ofJsonMembers : List (String × Json.Value) → List (String × Raw)
  | [] => []
  | (key, value) :: rest => (key, ofJson value) :: ofJsonMembers rest

end

mutual

/-- The settings of a TOML file. A date or time is a text. -/
def ofToml : Toml.Value → Raw
  | .text value => .text value
  | .integer value => .integer value
  | .real value => .real value
  | .flag value => .flag value
  | .moment value => .text (String.ofList value.written)
  | .array items => .list (ofTomlItems items)
  | .table entries => .table (ofTomlEntries entries)

/-- Elements of a TOML list. -/
def ofTomlItems : List Toml.Value → List Raw
  | [] => []
  | item :: rest => ofToml item :: ofTomlItems rest

/-- Entries of a TOML table. -/
def ofTomlEntries : List (String × Toml.Value) → List (String × Raw)
  | [] => []
  | (key, value) :: rest => (key, ofToml value) :: ofTomlEntries rest

end

/-- The entries of a table; anything else has none. -/
def entries : Raw → List (String × Raw)
  | .table entries => entries
  | _ => []

/-- The elements of a list; anything else has none. -/
def elements : Raw → List Raw
  | .list items => items
  | _ => []

end Raw

end QuerySurface.Settings
