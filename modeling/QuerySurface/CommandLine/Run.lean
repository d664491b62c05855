import QuerySurface.CommandLine.Arguments
import QuerySurface.Plan.Data
import QuerySurface.Traits.Emitter
import QuerySurface.Schema.Disk
import QuerySurface.Settings.Load

/-!
# Running

A run loads settings and schema, makes all files in memory, and only then writes the first
of them. Warnings are shown as soon as the schema is loaded, also if the run fails later.
-/

namespace QuerySurface.CommandLine

open Files (Disk TextFile)

/-- What a run prints, and how it ends. -/
structure Report where
  /-- Zero for success. -/
  status : Nat
  /-- What it prints. -/
  printed : String
  /-- What it prints about its failure. -/
  complaint : String
  deriving DecidableEq, Repr, Inhabited

/-- The settings of a run: what is asked for goes before what is set. -/
def Request.apply (request : Request) (settings : Settings) : Settings :=
  { settings with
    input := { settings.input with schema := request.schema.getD settings.input.schema }
    output :=
      { directory := request.output.getD settings.output.directory
        format := request.format.getD settings.output.format }
    strictness := if request.strict then .strict else settings.strictness }

/-- The file that plans are written to. -/
def plansFile (plans : List Plan.NodePlan) : TextFile :=
  ⟨"plans.json", (Plan.plansValue plans).pretty⟩

/-- The files of a graph: Rust sources, or the plans. -/
def filesOf (settings : Settings) (graph : Schema.Graph) : Outcome (List TextFile) :=
  match settings.output.format with
  | .rust => (Traits.backend settings.layout.scalars).build graph settings.layout
  | .plan => (Plan.generate graph settings.layout).map fun plans => [plansFile plans]

/-- The text of a failure in a complaint. The cause of a fault of a file is named once more. -/
def complaintOf : Failure → String
  | .file fault => (Failure.file fault).message ++ ": " ++ fault.message
  | failure => failure.message

/-- The end of a run that fails; `doing` is at what. -/
def failed (printed doing : String) (failure : Failure) : Report :=
  { status := 1
    printed := printed
    complaint :=
      "Error: " ++ (if doing.isEmpty then "" else doing ++ ": ") ++ complaintOf failure ++ "\n" }

/-- The lines for the warnings of a graph. -/
def warningLines (graph : Schema.Graph) : String :=
  String.join (graph.diagnostics.warnings.map fun item => "⚠️  " ++ item.text ++ "\n")

/-- The line at the end of a run. -/
def summary (graph : Schema.Graph) (files : List TextFile) (directory : String) : String :=
  "✅ " ++ toString graph.nodes.length ++ " types -> " ++ toString files.length ++ " files in " ++
    directory ++ "\n"

variable {m : Type → Type} [Monad m]

/-- Generates from a loaded graph and writes the files. -/
def produce (disk : Disk m) (directory : String) (settings : Settings) (graph : Schema.Graph) :
    m Report := do
  match filesOf settings graph with
  | .error failure => return failed (warningLines graph) "" failure
  | .ok files =>
    match ← disk.writeFiles directory files with
    | .error fault =>
      return failed (warningLines graph) ("failed to write output to " ++ directory) (.file fault)
    | .ok () =>
      return ⟨0, warningLines graph ++ summary graph files directory, ""⟩

/-- The identity of the graph of a run. -/
def graphId : Schema.GraphId :=
  ⟨0⟩

/-- Loads the schema under resolved settings and goes on. -/
def generate (disk : Disk m) (workingDirectory : String) (settings : Settings) : m Report := do
  let path := settings.schemaPath workingDirectory
  match ← Schema.Graph.load disk graphId settings.loading path with
  | .error failure => return failed "" ("failed to load schema from " ++ path) failure
  | .ok graph => produce disk (settings.outputPath workingDirectory) settings graph

/-- A run. -/
def run (disk : Disk m) (surroundings : Settings.Surroundings) (request : Request) :
    m Report := do
  match ← Settings.load disk surroundings request.config with
  | .error failure => return failed "" "failed to load configuration" failure
  | .ok settings => generate disk surroundings.workingDirectory (request.apply settings)

/-- What is said to someone who asks for help. -/
def helpText : String :=
  "\n".intercalate
    [ "Generate typed query abstractions from a schema model",
      "",
      "Usage: typed-query-gen [OPTIONS]",
      "",
      "Options:",
      "  -c, --config <CONFIG>  Configuration file (added on top of the default locations)",
      "  -s, --schema <SCHEMA>  Schema document or directory of documents",
      "  -o, --output <OUTPUT>  Output directory",
      "  -f, --format <FORMAT>  Output format [possible values: rust, plan]",
      "      --strict           Treat duplicate definitions and unresolved interfaces as errors",
      "  -h, --help             Print help",
      "" ]

/-- What is said about arguments that make no sense. -/
def misuseText : String :=
  "error: invalid arguments\n\nFor more information, try '--help'.\n"

/-- Does what arguments ask for. -/
def execute (disk : Disk m) (surroundings : Settings.Surroundings) (arguments : List String) :
    m Report :=
  match Demand.ofArguments arguments with
  | .help => return ⟨0, helpText, ""⟩
  | .misuse => return ⟨2, "", misuseText⟩
  | .run request => run disk surroundings request

end QuerySurface.CommandLine
