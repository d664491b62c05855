import QuerySurface.Settings.Basic

/-!
# Arguments

The options of the command line, read from left to right; the first argument that asks for
help or makes no sense decides. An option with a value has it behind an equals sign, right
behind its letter, or as the next argument, which then must not look like an option. No
option is given twice, and there are no other arguments.
-/

namespace QuerySurface.CommandLine

open Settings (Format)

/-- What a run is asked to do. -/
structure Request where
  /-- The settings file that is asked for. -/
  config : Option String
  /-- Where the schema is, if not where the settings say. -/
  schema : Option String
  /-- Where the output goes, if not where the settings say. -/
  output : Option String
  /-- What is written, if not what the settings say. -/
  format : Option Format
  /-- Whether nothing that may be allowed is allowed. -/
  strict : Bool
  deriving DecidableEq, Repr, Inhabited

/-- A run without any options. -/
def Request.plain : Request :=
  ⟨none, none, none, none, false⟩

/-- What arguments ask for. -/
inductive Demand where
  /-- A run. -/
  | run (request : Request)
  /-- Help. -/
  | help
  /-- Nothing that makes sense. -/
  | misuse
  deriving DecidableEq, Repr, Inhabited

/-- Options with a value. -/
inductive Setter where
  /-- Asks for a settings file. -/
  | config
  /-- Says where the schema is. -/
  | schema
  /-- Says where the output goes. -/
  | output
  /-- Says what is written. -/
  | format
  deriving DecidableEq, Repr

namespace Setter

/-- The option of a long name. -/
def ofName? (name : String) : Option Setter :=
  [("config", .config), ("schema", .schema), ("output", .output), ("format", .format)].lookup name

/-- The option of a letter. -/
def ofLetter? (letter : Char) : Option Setter :=
  [('c', .config), ('s', .schema), ('o', .output), ('f', .format)].lookup letter

/-- A value for something that has none yet. Paths are not empty. -/
def fresh (old : Option String) (value : String) : Option (Option String) :=
  if old.isSome || value.isEmpty then none else some (some value)

/-- Sets an option. -/
def set (setter : Setter) (value : String) (request : Request) : Option Request :=
  match setter with
  | .config => (fresh request.config value).map fun config => { request with config }
  | .schema => (fresh request.schema value).map fun schema => { request with schema }
  | .output => (fresh request.output value).map fun output => { request with output }
  | .format =>
    if request.format.isSome then none
    else
      (Format.choices.lookup value).map fun format => { request with format := some format }

end Setter

/-- An argument by its form. -/
inductive Argument where
  /-- Two hyphens alone, which end the options. -/
  | ending
  /-- A long name, and what stands behind an equals sign. -/
  | long (name : String) (value : Option String)
  /-- A letter, and what stands right behind it. -/
  | short (letter : Char) (behind : List Char)
  /-- No option. -/
  | plain
  deriving DecidableEq, Repr

/-- The form of an argument. -/
def Argument.ofText (text : String) : Argument :=
  match text.toList with
  | ['-', '-'] => .ending
  | '-' :: '-' :: rest =>
    let name := String.ofList (rest.takeWhile (· != '='))
    match rest.dropWhile (· != '=') with
    | _ :: value => .long name (some (String.ofList value))
    | [] => .long name none
  | '-' :: letter :: behind => .short letter behind
  | _ => .plain

/-- A value right behind a letter. An equals sign may stand between. -/
def attached : List Char → Option String
  | [] => none
  | '=' :: value => some (String.ofList value)
  | value => some (String.ofList value)

/-- What an argument does to a request. -/
inductive Effect where
  /-- It is complete in itself. -/
  | done (request : Option Request)
  /-- It takes the next argument as its value. -/
  | needs (setter : Setter)
  /-- It asks for help. -/
  | help

/-- An option with a value that may be attached. -/
def Effect.ofSetter (setter : Setter) (request : Request) (value : Option String) : Effect :=
  match value with
  | some value => .done (setter.set value request)
  | none => .needs setter

/-- The effect of a long name. -/
def Effect.ofLong (name : String) (value : Option String) (request : Request) : Effect :=
  match Setter.ofName? name, value with
  | some setter, _ => ofSetter setter request value
  | none, some _ => .done none
  | none, none =>
    if name = "help" then .help
    else if name = "strict" ∧ !request.strict then .done (some { request with strict := true })
    else .done none

/-- The effect of a letter. -/
def Effect.ofShort (letter : Char) (behind : List Char) (request : Request) : Effect :=
  match Setter.ofLetter? letter with
  | some setter => ofSetter setter request (attached behind)
  | none => if letter = 'h' then .help else .done none

/-- The effect of an argument with some behind it. -/
def Effect.ofArgument (argument : Argument) (last : Bool) (request : Request) : Effect :=
  match argument with
  | .ending => .done (if last then some request else none)
  | .long name value => ofLong name value request
  | .short letter behind => ofShort letter behind request
  | .plain => .done none

/-- What arguments ask for, with an option in front that may still need its value. -/
def demandFrom (request : Request) : (waiting : Option Setter) → List String → Demand
  | none, [] => .run request
  | some _, [] => .misuse
  | some setter, text :: rest =>
    match Argument.ofText text, setter.set text request with
    | .plain, some request => demandFrom request none rest
    | _, _ => .misuse
  | none, text :: rest =>
    match Effect.ofArgument (.ofText text) rest.isEmpty request with
    | .done (some request) => demandFrom request none rest
    | .done none => .misuse
    | .needs setter => demandFrom request (some setter) rest
    | .help => .help

/-- What arguments ask for. -/
def Demand.ofArguments (arguments : List String) : Demand :=
  demandFrom .plain none arguments

end QuerySurface.CommandLine
