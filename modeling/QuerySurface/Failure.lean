import QuerySurface.Files.Fault
import QuerySurface.Schema.Diagnostics

/-!
# Failures

Everything that can end a run, as causes; the wording of each stands in one place. A
failure is final: nothing is generated behind it.
-/

namespace QuerySurface

/-- Why a run ends early. -/
inductive Failure where
  /-- A document or one of its types is unusable. -/
  | schema (node message : String)
  /-- The schema has problems, at least one of them an error. -/
  | diagnostics (found : Schema.Diagnostics)
  /-- Nothing can be generated for a type. -/
  | generation (node message : String)
  /-- The layout would make unusable names. -/
  | configuration (message : String)
  /-- A file could not be read or written. -/
  | file (fault : Files.Fault)
  /-- A text is not what it has to be. -/
  | json (problem : Json.Problem)
  /-- The settings could not be loaded. -/
  | settings
  deriving DecidableEq, Repr

namespace Failure

/-- The text of a problem of a data text. -/
def problemText : Json.Problem → String
  | .malformed => "malformed text"
  | .unfinished => "the text ends too early"
  | .unfit message => message

/-- The text of a failure. -/
def message : Failure → String
  | .schema node message => "Schema error in " ++ node ++ ": " ++ message
  | .diagnostics found => "Schema validation failed:\n" ++ found.text
  | .generation node message => "Generation error for " ++ node ++ ": " ++ message
  | .configuration message => "Invalid configuration: " ++ message
  | .file fault => "IO error: " ++ fault.message
  | .json problem => "JSON error: " ++ problemText problem
  | .settings => "Config loading error"

end Failure

/-- A result that may be a failure. -/
abbrev Outcome (α : Type) := Except Failure α

end QuerySurface
