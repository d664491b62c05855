import QuerySurface.Json.Printer
import QuerySurface.Json.Reader

/-!
# Diagnostics

Problems of a schema have a code. A strictness setting gives each code a level, and the
level says whether a problem is dropped, kept as a warning, or an error. Problems without
a setting of their own are errors. Diagnostics are kept in the order in which they arise.
-/

namespace QuerySurface.Schema

/-- Codes of problems. -/
inductive Code where
  /-- Two types share a name. -/
  | duplicateNode
  /-- Two fields of a type share a name. -/
  | duplicateField
  /-- Two arguments of a field share a name. -/
  | duplicateArgument
  /-- Two enum values of a type share a name. -/
  | duplicateEnumValue
  /-- A type implements something that is no interface. -/
  | unresolvedInterface
  /-- A union member is no object. -/
  | unresolvedUnionMember
  /-- A field or an argument has a type that is not declared. -/
  | unresolvedType
  /-- A root is not of the kind it has to be. -/
  | rootKindMismatch
  deriving DecidableEq, Repr, Inhabited

namespace Code

/-- Every code, in declaration order. -/
def all : List Code :=
  [.duplicateNode, .duplicateField, .duplicateArgument, .duplicateEnumValue,
    .unresolvedInterface, .unresolvedUnionMember, .unresolvedType, .rootKindMismatch]

/-- The number of a code in messages. -/
def number : Code → String
  | .duplicateNode => "S001"
  | .duplicateField => "S002"
  | .duplicateArgument => "S003"
  | .duplicateEnumValue => "S004"
  | .unresolvedInterface => "S101"
  | .unresolvedUnionMember => "S102"
  | .unresolvedType => "S103"
  | .rootKindMismatch => "S104"

/-- The name of a code in data. -/
def name : Code → String
  | .duplicateNode => "DuplicateNode"
  | .duplicateField => "DuplicateField"
  | .duplicateArgument => "DuplicateArgument"
  | .duplicateEnumValue => "DuplicateEnumValue"
  | .unresolvedInterface => "UnresolvedInterface"
  | .unresolvedUnionMember => "UnresolvedUnionMember"
  | .unresolvedType => "UnresolvedType"
  | .rootKindMismatch => "RootKindMismatch"

/-- Reads the name of a code. -/
def reader : Json.Reader Code :=
  Json.Reader.choice (all.map fun code => (code.name, code))

end Code

/-- How grave a diagnostic is. -/
inductive Severity where
  /-- It is reported. -/
  | warning
  /-- It also makes the schema unusable. -/
  | error
  deriving DecidableEq, Repr, Inhabited

namespace Severity

/-- The word for a severity in messages. -/
def word : Severity → String
  | .warning => "warning"
  | .error => "error"

/-- The name of a severity in data. -/
def name : Severity → String
  | .warning => "Warning"
  | .error => "Error"

/-- Reads the name of a severity. -/
def reader : Json.Reader Severity :=
  Json.Reader.choice ([.warning, .error].map fun severity => (severity.name, severity))

end Severity

/-- What happens to a class of problems. -/
inductive Level where
  /-- They are errors. -/
  | error
  /-- They are warnings. -/
  | warn
  /-- They are dropped. -/
  | ignore
  deriving DecidableEq, Repr, Inhabited

namespace Level

/-- The word for a level in data. -/
def word : Level → String
  | .error => "error"
  | .warn => "warn"
  | .ignore => "ignore"

/-- The words for all levels. -/
def choices : List (String × Level) :=
  [.error, .warn, .ignore].map fun level => (level.word, level)

/-- Reads the word for a level. -/
def reader : Json.Reader Level :=
  Json.Reader.choice choices

/-- The severity that problems of a level have; none if they are dropped. -/
def severity? : Level → Option Severity
  | .error => some .error
  | .warn => some .warning
  | .ignore => none

end Level

/-- Levels of the problems that a schema may be allowed to have. -/
structure Strictness where
  /-- Level of names that are declared twice. -/
  duplicateDefinition : Level
  /-- Level of interfaces and union members that name nothing fitting. -/
  unresolvedInterface : Level
  deriving DecidableEq, Repr, Inhabited

namespace Strictness

/-- Everything that may be allowed is allowed and reported. -/
def lenient : Strictness :=
  ⟨.warn, .warn⟩

/-- Nothing is allowed. -/
def strict : Strictness :=
  ⟨.error, .error⟩

/-- The level of a code. -/
def level (strictness : Strictness) : Code → Level
  | .duplicateNode | .duplicateField | .duplicateArgument | .duplicateEnumValue =>
    strictness.duplicateDefinition
  | .unresolvedInterface | .unresolvedUnionMember => strictness.unresolvedInterface
  | .unresolvedType | .rootKindMismatch => .error

/-- Reads strictness settings; what is not set is allowed and reported. -/
def reader : Json.Reader Strictness :=
  Json.Reader.record "StrictnessConfig"
    [ .may "duplicate_definition" Level.reader
        fun level strictness => { strictness with duplicateDefinition := level },
      .may "unresolved_interface" Level.reader
        fun level strictness => { strictness with unresolvedInterface := level } ]
    lenient

/-- Strictness settings as data. -/
def toValue (strictness : Strictness) : Json.Value :=
  .object
    [ ("duplicate_definition", .text strictness.duplicateDefinition.word),
      ("unresolved_interface", .text strictness.unresolvedInterface.word) ]

end Strictness

/-- A reported problem. -/
structure Diagnostic where
  /-- The type that the problem is about. -/
  node : String
  /-- What kind of problem it is. -/
  code : Code
  /-- How grave it is. -/
  severity : Severity
  /-- What is wrong. -/
  message : String
  /-- Where the offending name stands, and the like. -/
  context : List String
  deriving DecidableEq, Repr, Inhabited

namespace Diagnostic

/-- The text of a diagnostic: one line, and one more for each piece of context. -/
def text (item : Diagnostic) : String :=
  "[" ++ item.code.number ++ "] " ++ item.severity.word ++ ": " ++ item.message ++
    " (" ++ item.node ++ ")" ++ String.join (item.context.map ("\n  - " ++ ·))

/-- A diagnostic as data; empty context is left out. -/
def toValue (item : Diagnostic) : Json.Value :=
  .object
    ([ ("node", .text item.node), ("code", .text item.code.name),
       ("severity", .text item.severity.name), ("message", .text item.message) ] ++
      (if item.context.isEmpty then [] else [("context", .texts item.context)]))

/-- Reads a diagnostic. -/
def reader : Json.Reader Diagnostic :=
  Json.Reader.record "DiagnosticItem"
    [ .must "node" Json.Reader.text fun node item => { item with node },
      .must "code" Code.reader fun code item => { item with code },
      .must "severity" Severity.reader fun severity item => { item with severity },
      .must "message" Json.Reader.text fun message item => { item with message },
      .may "context" (Json.Reader.list Json.Reader.text) fun context item => { item with context } ]
    ⟨"", .duplicateNode, .warning, "", []⟩

end Diagnostic

/-- Diagnostics in the order in which they arose. -/
structure Diagnostics where
  /-- The diagnostics. -/
  items : List Diagnostic
  deriving DecidableEq, Repr, Inhabited

namespace Diagnostics

/-- No diagnostics. -/
def empty : Diagnostics :=
  ⟨[]⟩

/-- Adds a diagnostic. -/
def push (diagnostics : Diagnostics) (item : Diagnostic) : Diagnostics :=
  ⟨diagnostics.items ++ [item]⟩

/-- Adds a problem at the level of its code. -/
def report (diagnostics : Diagnostics) (strictness : Strictness) (node : String) (code : Code)
    (message : String) : Diagnostics :=
  match (strictness.level code).severity? with
  | some severity => diagnostics.push ⟨node, code, severity, message, []⟩
  | none => diagnostics

/-- Message about a name that was declared before. -/
def duplicateMessage (what : String) : String :=
  "'" ++ what ++ "' is declared more than once; the last declaration wins"

/-- Adds a problem about a name that was declared before. -/
def duplicate (diagnostics : Diagnostics) (strictness : Strictness) (node : String) (code : Code)
    (what : String) : Diagnostics :=
  diagnostics.report strictness node code (duplicateMessage what)

/-- The error about a type that is not declared; `owner` is the field or argument that has it. -/
def unresolvedTypeItem (node owner type : String) : Diagnostic :=
  ⟨node, .unresolvedType, .error, "type '" ++ type ++ "' is not declared in the schema",
    ["referenced by " ++ owner]⟩

/-- Adds the error about a type that is not declared. -/
def unresolvedType (diagnostics : Diagnostics) (node owner type : String) : Diagnostics :=
  diagnostics.push (unresolvedTypeItem node owner type)

/-- Whether there is an error. -/
def hasErrors (diagnostics : Diagnostics) : Bool :=
  diagnostics.items.any (·.severity == .error)

/-- The diagnostics of one severity. -/
def ofSeverity (diagnostics : Diagnostics) (severity : Severity) : List Diagnostic :=
  diagnostics.items.filter (·.severity == severity)

/-- The warnings. -/
def warnings (diagnostics : Diagnostics) : List Diagnostic :=
  diagnostics.ofSeverity .warning

/-- Number of errors. -/
def errorCount (diagnostics : Diagnostics) : Nat :=
  (diagnostics.ofSeverity .error).length

/-- Number of warnings. -/
def warningCount (diagnostics : Diagnostics) : Nat :=
  diagnostics.warnings.length

/-- The text of all diagnostics, with their numbers behind. -/
def text (diagnostics : Diagnostics) : String :=
  String.join (diagnostics.items.map (·.text ++ "\n")) ++
    (if diagnostics.hasErrors then
      "\n" ++ toString diagnostics.errorCount ++ " error(s), " ++
        toString diagnostics.warningCount ++ " warning(s)\n"
    else if diagnostics.items.isEmpty then ""
    else "\n" ++ toString diagnostics.warningCount ++ " warning(s)\n")

/-- Diagnostics as data. -/
def toValue (diagnostics : Diagnostics) : Json.Value :=
  .object [("items", .array (diagnostics.items.map Diagnostic.toValue))]

/-- Reads diagnostics. -/
def reader : Json.Reader Diagnostics :=
  Json.Reader.record "Diagnostics"
    [.must "items" (Json.Reader.list Diagnostic.reader) fun items _ => ⟨items⟩] empty

end Diagnostics

end QuerySurface.Schema
