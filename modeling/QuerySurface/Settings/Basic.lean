import QuerySurface.Files.Path
import QuerySurface.Json.Printer
import QuerySurface.Layout.Basic
import QuerySurface.Schema.Loading

/-!
# Settings

All settings of a run: where the schema is, where the output goes and what it is, which
directives mean something, how strict the checks are, and the layout. Each has a default.
-/

namespace QuerySurface.Settings

/-- What is written. -/
inductive Format where
  /-- Rust sources. -/
  | rust
  /-- The plans themselves. -/
  | plan
  deriving DecidableEq, Repr, Inhabited

namespace Format

/-- The word for a format. -/
def word : Format → String
  | .rust => "rust"
  | .plan => "plan"

/-- The words for all formats. -/
def choices : List (String × Format) :=
  [.rust, .plan].map fun format => (format.word, format)

end Format

/-- Where the schema is. -/
structure Input where
  /-- A document, or a directory of documents. -/
  schema : String
  /-- Extensions of the files of a directory that are documents. -/
  extensions : List String
  deriving DecidableEq, Repr, Inhabited

/-- The usual input. -/
def Input.usual : Input :=
  ⟨"schema", ["json"]⟩

/-- Input settings as data. -/
def Input.toValue (input : Input) : Json.Value :=
  .object [("schema", .text input.schema), ("extensions", .texts input.extensions)]

/-- Where the output goes. -/
structure Output where
  /-- The directory that is written to. -/
  directory : String
  /-- What is written. -/
  format : Format
  deriving DecidableEq, Repr, Inhabited

/-- The usual output. -/
def Output.usual : Output :=
  ⟨"generated", .rust⟩

/-- Output settings as data. -/
def Output.toValue (output : Output) : Json.Value :=
  .object [("dir", .text output.directory), ("format", .text output.format.word)]

end QuerySurface.Settings

namespace QuerySurface

/-- The settings of a run. -/
structure Settings where
  /-- Where the schema is. -/
  input : Settings.Input
  /-- Where the output goes. -/
  output : Settings.Output
  /-- Names of the directives. -/
  directives : Schema.Directives
  /-- Levels of problems. -/
  strictness : Schema.Strictness
  /-- The layout. -/
  layout : Layout
  deriving DecidableEq, Repr, Inhabited

namespace Settings

/-- The usual settings. -/
def usual : Settings :=
  ⟨.usual, .usual, .usual, .lenient, .usual⟩

/-- Settings as data. -/
def toValue (settings : Settings) : Json.Value :=
  .object
    [ ("input", settings.input.toValue), ("output", settings.output.toValue),
      ("directives", settings.directives.toValue), ("strictness", settings.strictness.toValue),
      ("layout", settings.layout.toValue) ]

/-- How documents are loaded under the settings. -/
def loading (settings : Settings) : Schema.LoadSettings :=
  ⟨settings.directives, settings.strictness, settings.input.extensions⟩

/-- Where the schema is, seen from a directory. -/
def schemaPath (workingDirectory : String) (settings : Settings) : String :=
  Files.join workingDirectory settings.input.schema

/-- Where the output goes, seen from a directory. -/
def outputPath (workingDirectory : String) (settings : Settings) : String :=
  Files.join workingDirectory settings.output.directory

end Settings

end QuerySurface
