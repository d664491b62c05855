import QuerySurface.Failure
import QuerySurface.Files.Disk
import QuerySurface.Json.Reader
import QuerySurface.Settings.Environment
import QuerySurface.Settings.Path
import QuerySurface.Settings.Reading
import QuerySurface.Text.Decode
import QuerySurface.Toml.Reader

/-!
# Loading settings

Settings are merged from several sources, the later ones on top: the files that may stand in
the working directory, the file of the user, the file that was asked for, and the
environment. A file that need not be there may be missing, but a file that is there has to
be readable, and the merged settings have to fit their types.
-/

namespace QuerySurface.Settings

open Files (Disk)

/-- Where a run takes place. -/
structure Surroundings where
  /-- The directory that relative paths are seen from. -/
  workingDirectory : String
  /-- The directory of the settings of the user, if there is one. -/
  userDirectory : Option String
  /-- The variables of the environment, in order. -/
  «variables» : List (String × String)
  deriving Repr, Inhabited

/-- Formats of settings files. -/
inductive FileFormat where
  /-- TOML. -/
  | toml
  /-- JSON. -/
  | json
  deriving DecidableEq, Repr, Inhabited

/-- The format of an extension. -/
def FileFormat.ofExtension? : String → Option FileFormat
  | "toml" => some .toml
  | "json" => some .json
  | _ => none

/-- Reads a file of a format. It has to hold a table. -/
def FileFormat.parse? (format : FileFormat) (source : String) : Option (List (String × Raw)) :=
  let raw? := match format with
    | .toml => (Toml.Value.parse? source).map Raw.ofToml
    | .json => (Json.Value.parse source).toOption.map Raw.ofJson
  match raw? with
  | some (.table entries) => some entries
  | _ => none

/-- Files that are looked for in the working directory. -/
def usualFiles : List String :=
  ["typed-query.toml", ".typed-query.toml", "config/typed-query.toml"]

/-- The file of the user, seen from the directory of its settings. -/
def userFile : String := "typed-query-gen/typed-query.toml"

/-- Bytes in front of a text that only say that it is one. -/
def byteOrderMark : List UInt8 := [0xEF, 0xBB, 0xBF]

/-- The text of the bytes of a file. Bytes that are no text become replacement characters. -/
def textOf (bytes : ByteArray) : String :=
  let content := bytes.toList
  let content := if content.take 3 = byteOrderMark then content.drop 3 else content
  Text.decodeLossy content

variable {m : Type → Type} [Monad m]

/-- The file that a path means, with its format: the path itself, or else the path with the
extension of a format behind it. -/
def findFile (disk : Disk m) (path : String) : m (Option (String × FileFormat)) := do
  if ← disk.isFile path then
    return ((Files.extension? path).bind FileFormat.ofExtension?).map (path, ·)
  match Files.extended? path "toml", Files.extended? path "json" with
  | some toml, some json =>
    if ← disk.isFile toml then return some (toml, .toml)
    if ← disk.isFile json then return some (json, .json)
    return none
  | _, _ => return none

/-- The settings of the file that a path means. Without such a file there are none, which is a
failure if the file is needed. -/
def readFile (disk : Disk m) (needed : Bool) (path : String) :
    m (Outcome (List (String × Raw))) := do
  let missing : Outcome (List (String × Raw)) := if needed then .error .settings else .ok []
  match ← findFile disk path with
  | none => return missing
  | some (path, format) =>
    match ← disk.read path with
    | .error _ => return missing
    | .ok bytes => return (format.parse? (textOf bytes)).elim (.error .settings) .ok

/-- The settings of several files, in order, up to the first failure. -/
def readFiles (disk : Disk m) : List (Bool × String) → m (Outcome (List (List (String × Raw))))
  | [] => return .ok []
  | (needed, path) :: rest => do
    match ← readFile disk needed path with
    | .error failure => return .error failure
    | .ok entries =>
      match ← readFiles disk rest with
      | .error failure => return .error failure
      | .ok others => return .ok (entries :: others)

/-- The file of the user, if something stands in its place. -/
def userFiles (disk : Disk m) (surroundings : Surroundings) : m (List String) := do
  match surroundings.userDirectory with
  | none => return []
  | some directory =>
    let path := Files.join directory userFile
    let isFile ← disk.isFile path
    let isDirectory ← disk.isDirectory path
    return if isFile || isDirectory then [path] else []

/-- The files that settings come from, later ones on top, and whether each is needed. -/
def sources (disk : Disk m) (surroundings : Surroundings) (asked : Option String) :
    m (List (Bool × String)) := do
  let here := Files.join surroundings.workingDirectory
  let ofUser ← userFiles disk surroundings
  return usualFiles.map (fun path => (false, here path)) ++ ofUser.map (false, ·) ++
    asked.toList.map fun path => (true, here path)

/-- The settings that raw ones make. -/
def ofRaw (entries : List (List (String × Raw))) : Outcome Settings :=
  match Conversion.settings (entries.foldl Raw.merge (.table [])) with
  | some settings => .ok settings
  | none => .error .settings

/-- Loads the settings of a run. -/
def load (disk : Disk m) (surroundings : Surroundings) (asked : Option String) :
    m (Outcome Settings) := do
  match ← readFiles disk (← sources disk surroundings asked) with
  | .error failure => return .error failure
  | .ok entries => return ofRaw (entries ++ [ofVariables surroundings.variables])

end QuerySurface.Settings
