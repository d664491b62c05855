import QuerySurface.Failure
import QuerySurface.Schema.Declaration

/-!
# Building a graph

A draft takes declarations in. A name that was declared before in the same place is reported
and replaces the earlier declaration where it stands. Freezing a draft checks every name
that refers to a type, settles the roots, and yields the graph, or all diagnostics if one
of them is an error.
-/

namespace QuerySurface.Schema

/-- Something being filled, with the diagnostics so far. -/
structure Filling (α : Type) where
  /-- What is being filled. -/
  item : α
  /-- The diagnostics so far. -/
  diagnostics : Diagnostics

/-- Reports a problem if `already` holds. -/
def Diagnostics.duplicateIf (diagnostics : Diagnostics) (already : Bool) (strictness : Strictness)
    (node : String) (code : Code) (what : String) : Diagnostics :=
  if already then diagnostics.duplicate strictness node code what else diagnostics

/-- The name of an argument in messages. -/
def argumentPath (field argument : String) : String :=
  field ++ "(" ++ argument ++ ")"

/-- Fills a field by one step. -/
def FieldStep.apply (strictness : Strictness) (filling : Filling Field) (step : FieldStep) :
    Filling Field :=
  let field := filling.item
  match step with
  | .comment text => { filling with item := { field with comments := field.comments ++ [text] } }
  | .primaryKey value => { filling with item := { field with primaryKey := value } }
  | .selection value => { filling with item := { field with selection := value } }
  | .resolve value => { filling with item := { field with resolve := value } }
  | .argument name type hasDefault comments =>
    { item :=
        { field with
          arguments := Catalog.put ⟨field.id, name, type, hasDefault, comments⟩ field.arguments }
      diagnostics :=
        filling.diagnostics.duplicateIf (Catalog.has name field.arguments) strictness field.owner
          .duplicateArgument (argumentPath field.name name) }

/-- A field without comments, marks and arguments. -/
def Field.blank (id : FieldId) (owner name : String) (type : TypeRef) (required hasDefault : Bool) :
    Field :=
  ⟨id, owner, name, type, required, hasDefault, false, false, false, [], []⟩

/-- Fills a node by one step. -/
def NodeStep.apply (strictness : Strictness) (filling : Filling Node) (step : NodeStep) :
    Filling Node :=
  let node := filling.item
  match step with
  | .implements interface =>
    { filling with item := { node with interfaces := node.interfaces ++ [interface] } }
  | .member object => { filling with item := { node with members := node.members ++ [object] } }
  | .comment text => { filling with item := { node with comments := node.comments ++ [text] } }
  | .enumValue name comments =>
    { item := { node with values := Catalog.put ⟨name, comments⟩ node.values }
      diagnostics :=
        filling.diagnostics.duplicateIf (Catalog.has name node.values) strictness node.name
          .duplicateEnumValue name }
  | .field name type required hasDefault body =>
    let slot := (Catalog.slot? name node.fields).getD node.fields.length
    let blank :=
      Field.blank ⟨node.graph, node.slot, slot⟩ node.name name type required hasDefault
    let reported :=
      filling.diagnostics.duplicateIf (Catalog.has name node.fields) strictness node.name
        .duplicateField name
    let filled := body.foldl (FieldStep.apply strictness) ⟨blank, reported⟩
    { item := { node with fields := Catalog.put filled.item node.fields }
      diagnostics := filled.diagnostics }

/-- A node without any content. -/
def Node.blank (graph : GraphId) (slot : Nat) (name : String) (kind : Kind) : Node :=
  ⟨graph, slot, name, kind, [], [], [], [], []⟩

/-- A schema being declared. -/
structure Draft where
  /-- Identity of the graph to be. -/
  id : GraphId
  /-- Levels of problems. -/
  strictness : Strictness
  /-- The nodes so far. -/
  nodes : List Node
  /-- The query root, if one was named. -/
  query : Option String
  /-- The mutation root, if one was named. -/
  mutation : Option String
  /-- The subscription root, if one was named. -/
  subscription : Option String
  /-- The diagnostics so far. -/
  diagnostics : Diagnostics

namespace Draft

/-- Nothing declared. -/
def empty (id : GraphId) (strictness : Strictness) : Draft :=
  ⟨id, strictness, [], none, none, none, .empty⟩

/-- Whether a node of this name was declared. -/
def has (draft : Draft) (name : String) : Bool :=
  Catalog.has name draft.nodes

/-- Declares a node. -/
def addNode (draft : Draft) (name : String) (kind : Kind) (body : List NodeStep) : Draft :=
  let slot := (Catalog.slot? name draft.nodes).getD draft.nodes.length
  let reported :=
    draft.diagnostics.duplicateIf (draft.has name) draft.strictness name .duplicateNode name
  let filled :=
    body.foldl (NodeStep.apply draft.strictness) ⟨Node.blank draft.id slot name kind, reported⟩
  { draft with
    nodes := Catalog.put filled.item draft.nodes
    diagnostics := filled.diagnostics }

/-- Takes one declaration in. -/
def apply (draft : Draft) : SchemaStep → Draft
  | .node name kind body => draft.addNode name kind body
  | .query name => { draft with query := some name }
  | .mutation name => { draft with mutation := some name }
  | .subscription name => { draft with subscription := some name }

/-- Takes declarations in, one after the other. -/
def applyAll (draft : Draft) (steps : List SchemaStep) : Draft :=
  steps.foldl apply draft

/-- The kind of the node of a name. -/
def kindOf? (draft : Draft) (name : String) : Option Kind :=
  (Catalog.find? name draft.nodes).map Node.kind

/-- A problem with a name that refers to a node: code and message. -/
structure NameProblem where
  /-- The node that holds the name. -/
  node : String
  /-- What kind of problem it is. -/
  code : Code
  /-- What is wrong. -/
  message : String

/-- A type that is not declared. -/
structure MissingType where
  /-- The node that refers to it. -/
  node : String
  /-- The field or argument that has it. -/
  owner : String
  /-- Its name. -/
  type : String

/-- Interfaces and members of a node that name nothing fitting. -/
def nameProblems (draft : Draft) (node : Node) : List NameProblem :=
  (node.interfaces.filter (draft.kindOf? · != some .interface)).map (fun name =>
    ⟨node.name, .unresolvedInterface,
      "'" ++ name ++ "' is not a declared interface; it is ignored"⟩) ++
  (node.members.filter (draft.kindOf? · != some .object)).map (fun name =>
    ⟨node.name, .unresolvedUnionMember,
      "'" ++ name ++ "' is not a declared object type; it is ignored"⟩)

/-- The type that `owner` refers to, if it is not declared. -/
def missingType (draft : Draft) (node owner : String) (type : TypeRef) : List MissingType :=
  if (draft.kindOf? type.node).isNone then [⟨node, owner, type.node⟩] else []

/-- Types of a field and its arguments that are not declared. -/
def missingTypesOf (draft : Draft) (node : Node) (field : Field) : List MissingType :=
  draft.missingType node.name ("field '" ++ field.name ++ "'") field.type ++
    field.arguments.flatMap fun argument =>
      draft.missingType node.name
        ("argument '" ++ argument.name ++ "' of field '" ++ field.name ++ "'") argument.type

/-- Types of a node that are not declared. -/
def missingTypes (draft : Draft) (node : Node) : List MissingType :=
  node.fields.flatMap (draft.missingTypesOf node)

/-- Adds what is wrong with the names that refer to nodes: first interfaces and members of all
nodes, then types. -/
def checkNames (draft : Draft) (diagnostics : Diagnostics) : Diagnostics :=
  let named := (draft.nodes.flatMap draft.nameProblems).foldl
    (fun found problem =>
      found.report draft.strictness problem.node problem.code problem.message) diagnostics
  (draft.nodes.flatMap draft.missingTypes).foldl
    (fun found missing => found.unresolvedType missing.node missing.owner missing.type) named

/-- Message about a root of the wrong kind. -/
def rootMessage (role : String) (kind : Kind) (found : Option Kind) : String :=
  role ++ " root must be a " ++ kind.word ++ " node, found " ++ (found.elim "nothing" Kind.word)

/-- Adds what is wrong with a named root. -/
def checkRoot (draft : Draft) (role : String) (kind : Kind) (root : Option String)
    (diagnostics : Diagnostics) : Diagnostics :=
  match root with
  | some name =>
    if draft.kindOf? name = some kind then diagnostics
    else
      diagnostics.report draft.strictness name .rootKindMismatch
        (rootMessage role kind (draft.kindOf? name))
  | none => diagnostics

/-- A named root, or else the first node of the kind. -/
def rootOr (draft : Draft) (kind : Kind) (root : Option String) : Option String :=
  match root with
  | some name => some name
  | none => (draft.nodes.find? (·.kind == kind)).map Node.name

/-- All diagnostics of a draft. -/
def checked (draft : Draft) : Diagnostics :=
  draft.checkRoot "subscription" .object draft.subscription
    (draft.checkRoot "mutation" .mutation draft.mutation
      (draft.checkRoot "query" .query draft.query (draft.checkNames draft.diagnostics)))

/-- The graph of a draft, or its diagnostics if one of them is an error. -/
def freeze (draft : Draft) : Outcome Graph :=
  if draft.checked.hasErrors then .error (.diagnostics draft.checked)
  else
    .ok
      { id := draft.id
        nodes := draft.nodes
        query := draft.rootOr .query draft.query
        mutation := draft.rootOr .mutation draft.mutation
        subscription := draft.subscription
        diagnostics := draft.checked }

end Draft

/-- Builds a graph from declarations. -/
def Graph.build (id : GraphId) (strictness : Strictness) (steps : List SchemaStep) :
    Outcome Graph :=
  ((Draft.empty id strictness).applyAll steps).freeze

end QuerySurface.Schema
