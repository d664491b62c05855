import QuerySurface.Decimal.Nearest
import QuerySurface.Settings.Raw
import QuerySurface.Text.Blank
import QuerySurface.Text.Case

/-!
# Settings from the environment

Variables whose names start in a certain way are settings. Two underscores in the rest of a
name separate the parts of a path, and values that look like truth values or numbers are
taken as such.
-/

namespace QuerySurface.Settings

/-- What the names of variables that are settings start with, in lower case. -/
def variableStart : String := "typed_query__"

/-- Puts a point in the place of every two underscores. -/
def pointed : List Char → List Char
  | '_' :: '_' :: rest => '.' :: pointed rest
  | c :: rest => c :: pointed rest
  | [] => []

/-- The key that the name of a variable stands for. -/
def variableKey? (name : String) : Option String :=
  (variableStart.toList.isPrefixOf? (Text.lowercase name).toList).map fun rest =>
    String.ofList (pointed rest)

/-- The setting that a value stands for. -/
def variableValue (value : String) : Raw :=
  let word := Text.lowercase value
  if word = "true" then .flag true
  else if word = "false" then .flag false
  else
    match (Decimal.integer? value.toList).filter Decimal.fitsWord with
    | some number => .integer number
    | none =>
      match Decimal.real? value.toList with
      | some number => .real number
      | none => .text value

/-- The settings among variables, with their keys. -/
def ofVariables (environment : List (String × String)) : List (String × Raw) :=
  environment.filterMap fun (name, value) =>
    (variableKey? name).map fun key => (key, variableValue value)

end QuerySurface.Settings
