import QuerySurface.Schema.Document
import QuerySurface.Schema.Draft

/-!
# From documents to a graph

Documents are turned into declarations, type by type, and the declarations into a graph. A
type whose written notation is malformed somewhere is declared as far as it goes; the first
such notation of all documents is the failure that is reported, whatever else is wrong.
Scalars that every schema may use come first, unless a document declares them itself.
-/

namespace QuerySurface.Schema

/-- Names of the directives that mean something. -/
structure Directives where
  /-- Marks a primary key, which is always fetched. -/
  primaryKey : String
  /-- Marks a field that is always fetched. -/
  required : String
  /-- Marks a field with a default value. -/
  default : String
  /-- Marks a selection. -/
  selection : String
  /-- Marks a field that is resolved. -/
  resolve : String
  deriving DecidableEq, Repr, Inhabited

namespace Directives

/-- The usual names. -/
def usual : Directives :=
  ⟨"primaryKey", "required", "default", "selection", "resolve"⟩

/-- Directive names as data. -/
def toValue (names : Directives) : Json.Value :=
  .object
    [ ("primary_key", .text names.primaryKey), ("required", .text names.required),
      ("default", .text names.default), ("selection", .text names.selection),
      ("resolve", .text names.resolve) ]

/-- Reads directive names; the usual ones stand in for those that are not given. -/
def reader : Json.Reader Directives :=
  Json.Reader.record "DirectiveLayout"
    [ .may "primary_key" Json.Reader.text fun primaryKey names => { names with primaryKey },
      .may "required" Json.Reader.text fun required names => { names with required },
      .may "default" Json.Reader.text fun default names => { names with default },
      .may "selection" Json.Reader.text fun selection names => { names with selection },
      .may "resolve" Json.Reader.text fun resolve names => { names with resolve } ]
    usual

/-- A directive without the sign that may stand in front of it. -/
def bare (directive : String) : String :=
  match directive.toList with
  | '@' :: rest => String.ofList rest
  | _ => directive

/-- Whether a directive of the name is among those given. -/
def present (name : String) (given : List String) : Bool :=
  given.any (bare · == name)

end Directives

/-- How documents are loaded. -/
structure LoadSettings where
  /-- Names of the directives. -/
  directives : Directives
  /-- Levels of problems. -/
  strictness : Strictness
  /-- Extensions of the files that are documents. -/
  extensions : List String
  deriving DecidableEq, Repr, Inhabited

/-- The usual way to load documents. -/
def LoadSettings.usual : LoadSettings :=
  ⟨.usual, .lenient, ["json"]⟩

/-- Scalars that need no declaration. -/
def builtinScalars : List String :=
  ["ID", "String", "Int", "Float", "Boolean"]

/-- Reads a notation on behalf of a field or argument of a type. -/
def readType (node owner typeText : String) : Outcome TypeRef :=
  match TypeRef.parse typeText with
  | some type => .ok type
  | none => .error (.schema node (owner ++ " has malformed type '" ++ typeText ++ "'"))

/-- The declaration of an argument. -/
def ArgumentDocument.step (node field : String) (argument : ArgumentDocument) :
    Outcome FieldStep := do
  let type ← readType node (argumentPath field argument.name) argument.typeText
  return .argument argument.name type argument.default.isSome argument.comments

/-- The declarations of arguments; the first malformed notation is the failure. -/
def argumentSteps (node field : String) : List ArgumentDocument → Outcome (List FieldStep)
  | [] => .ok []
  | argument :: rest => do
    let step ← argument.step node field
    let steps ← argumentSteps node field rest
    return step :: steps

/-- The declaration of a field. -/
def FieldDocument.step (names : Directives) (node : String) (field : FieldDocument) :
    Outcome NodeStep := do
  let type ← readType node field.name field.typeText
  let arguments ← argumentSteps node field.name field.arguments
  let given := field.directives
  return .field field.name type
    (Directives.present names.required given || Directives.present names.primaryKey given)
    (Directives.present names.default given)
    ([ .primaryKey (Directives.present names.primaryKey given),
       .selection (Directives.present names.selection given),
       .resolve (Directives.present names.resolve given) ] ++
      field.comments.map .comment ++ arguments)

/-- Steps of a type, and the failure at which they stop. -/
structure Replay where
  /-- The steps up to the failure. -/
  steps : List NodeStep
  /-- The failure. -/
  failure : Option Failure

/-- Declarations of fields, up to the first malformed notation. -/
def fieldSteps (names : Directives) (node : String) : List FieldDocument → Replay
  | [] => ⟨[], none⟩
  | field :: rest =>
    match field.step names node with
    | .ok step =>
      let replay := fieldSteps names node rest
      ⟨step :: replay.steps, replay.failure⟩
    | .error failure => ⟨[], some failure⟩

/-- Declarations inside a type. -/
def TypeDocument.replay (names : Directives) (type : TypeDocument) : Replay :=
  let fields := fieldSteps names type.name type.fields
  { steps :=
      type.comments.map .comment ++ type.implements.map .implements ++ type.members.map .member ++
        type.values.map (fun value => .enumValue value.name value.comments) ++ fields.steps
    failure := fields.failure }

/-- Declarations of the roots that are given. -/
def RootsDocument.steps (roots : RootsDocument) : List SchemaStep :=
  roots.query.toList.map .query ++ roots.mutation.toList.map .mutation ++
    roots.subscription.toList.map .subscription

/-- Declarations of a document. -/
def Document.steps (names : Directives) (document : Document) : List SchemaStep :=
  document.types.map (fun type => .node type.name type.kind (type.replay names).steps) ++
    document.roots.steps

/-- Declarations of the scalars that no document declares. -/
def builtinSteps (documents : List Document) : List SchemaStep :=
  (builtinScalars.filter fun scalar =>
    !documents.any fun document => document.types.any (·.name == scalar)).map fun scalar =>
      .node scalar .scalar []

/-- The first malformed notation. -/
def firstMalformed (names : Directives) (documents : List Document) : Option Failure :=
  (documents.flatMap Document.types).findSome? fun type => (type.replay names).failure

/-- Declarations of documents. -/
def documentSteps (names : Directives) (documents : List Document) : List SchemaStep :=
  builtinSteps documents ++ documents.flatMap (Document.steps names)

/-- The graph of documents. -/
def Graph.ofDocuments (id : GraphId) (settings : LoadSettings) (documents : List Document) :
    Outcome Graph :=
  match firstMalformed settings.directives documents with
  | some failure => .error failure
  | none => Graph.build id settings.strictness (documentSteps settings.directives documents)

/-- The graph of one document, given as text. -/
def Graph.ofText (id : GraphId) (settings : LoadSettings) (source : String) : Outcome Graph :=
  match Document.parse source with
  | .ok document => Graph.ofDocuments id settings [document]
  | .error problem => .error (.json problem)

end QuerySurface.Schema
