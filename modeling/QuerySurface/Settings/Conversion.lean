import QuerySurface.Decimal.Double
import QuerySurface.Settings.Raw
import QuerySurface.Text.Case

/-!
# Giving settings types

A raw setting is converted to the type that its place asks for: numbers and truth values to
texts, numbers and some words to truth values, words in any case to choices. A record is a
table, of which only the known names are read, or a list of its fields in order; a field that
is not there keeps its default. What cannot be converted has no value.
-/

namespace QuerySurface.Settings

/-- Converts a raw setting. -/
abbrev Conversion (α : Type) := Raw → Option α

namespace Conversion

/-- A text, which may be written as a truth value or number. -/
def text : Conversion String
  | .text value => some value
  | .flag value => some (toString value)
  | .integer value => some (toString value)
  | .real value => some (Decimal.plainText value)
  | .nothing | .list _ | .table _ => none

/-- Words for the truth values. -/
def flagWords : List (String × Bool) :=
  [ ("1", true), ("true", true), ("on", true), ("yes", true),
    ("0", false), ("false", false), ("off", false), ("no", false) ]

/-- A truth value, which may be written as a number, zero meaning false, or as a word. -/
def flag : Conversion Bool
  | .flag value => some value
  | .integer value => some (value != 0)
  | .real value => some (value != 0)
  | .text word => flagWords.lookup (Text.lowercase word)
  | .nothing | .list _ | .table _ => none

/-- A value that may be left out. -/
def optional {α : Type} (conversion : Conversion α) : Conversion (Option α)
  | .nothing => some none
  | raw => some <$> conversion raw

/-- One of several words, in any case; also as the only name of a table. -/
def choice {α : Type} (choices : List (String × α)) : Conversion α
  | .text word => choices.lookup (Text.lowercase word)
  | .table [(word, _)] => choices.lookup (Text.lowercase word)
  | _ => none

/-- A list. -/
def list {α : Type} (conversion : Conversion α) : Conversion (List α)
  | .list items => items.mapM conversion
  | _ => none

/-- Names with values. -/
def table {α : Type} (conversion : Conversion α) : Conversion (List (String × α))
  | .table entries => entries.mapM fun (name, raw) => (name, ·) <$> conversion raw
  | _ => none

/-- A field of a record. -/
structure Field (σ : Type) where
  /-- Its name. -/
  name : String
  /-- Puts a setting into a record. -/
  update : Raw → σ → Option σ

/-- A field with a conversion of its own. -/
def field {σ α : Type} (name : String) (conversion : Conversion α) (put : α → σ → σ) : Field σ :=
  ⟨name, fun raw record => (put · record) <$> conversion raw⟩

/-- Fills a record from the entries of a table. -/
def fromEntries {σ : Type} (entries : List (String × Raw)) : List (Field σ) → σ → Option σ
  | [], record => some record
  | field :: fields, record => do
    let record ← match entries.lookup field.name with
      | some raw => field.update raw record
      | none => some record
    fromEntries entries fields record

/-- Fills a record from the elements of a list. -/
def fromItems {σ : Type} : List (Field σ) → List Raw → σ → Option σ
  | field :: fields, raw :: rest, record => do
    let record ← field.update raw record
    fromItems fields rest record
  | _, _, record => some record

/-- A record, starting from its defaults. -/
def record {σ : Type} (fields : List (Field σ)) (usual : σ) : Conversion σ
  | .table entries => fromEntries entries fields usual
  | .list items => fromItems fields items usual
  | _ => none

end Conversion

end QuerySurface.Settings
