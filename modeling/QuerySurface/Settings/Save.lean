import QuerySurface.Failure
import QuerySurface.Files.Disk
import QuerySurface.Settings.Basic
import QuerySurface.Toml.Writer

/-!
# Saving settings

All settings, defaults included, as a file that loads as the same settings, except that the
names of mapped scalars are lowered by loading.
-/

namespace QuerySurface

mutual

/-- A JSON value in TOML, which has no absent value. -/
def Toml.Value.ofJson? : Json.Value → Option Toml.Value
  | .null => none
  | .flag value => some (.flag value)
  | .number (.integer value) => some (.integer value)
  | .number (.real value) => some (.real value)
  | .text value => some (.text value)
  | .array items => some (.array (Toml.itemsOfJson items))
  | .object members => some (.table (Toml.entriesOfJson members))

/-- Elements in TOML; absent ones are left out. -/
def Toml.itemsOfJson : List Json.Value → List Toml.Value
  | [] => []
  | item :: rest => (Toml.Value.ofJson? item).toList ++ Toml.itemsOfJson rest

/-- Members in TOML; absent ones are left out. -/
def Toml.entriesOfJson : List (String × Json.Value) → List (String × Toml.Value)
  | [] => []
  | (key, value) :: rest =>
    ((Toml.Value.ofJson? value).map (key, ·)).toList ++ Toml.entriesOfJson rest

end

namespace Settings

/-- The text of the file of settings. -/
def print (settings : Settings) : String :=
  (Toml.Value.ofJson? settings.toValue).elim "" Toml.Value.print

variable {m : Type → Type} [Monad m]

/-- Saves settings. -/
def save (disk : Files.Disk m) (path : String) (settings : Settings) : m (Outcome Unit) := do
  match ← disk.writeText path settings.print with
  | .ok () => return .ok ()
  | .error fault => return .error (.file fault)

end Settings

end QuerySurface
