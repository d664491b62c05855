import QuerySurface.Catalog
import QuerySurface.Schema.Kind
import QuerySurface.Schema.TypeRef
import QuerySurface.Schema.Diagnostics

/-!
# Schema graphs

A graph is a frozen schema: a catalog of nodes, each with a catalog of fields, each with a
catalog of arguments. Nodes refer to each other by name, so a graph may be cyclic. A field
is identified by the graph, the position of its node and its own position; an argument by
its field and its name. The derived facts about a graph stand in the modules that follow.
-/

namespace QuerySurface.Schema

/-- Which graph something belongs to. -/
structure GraphId where
  /-- A number that no other graph of the run has. -/
  tag : Nat
  deriving DecidableEq, Repr, Inhabited

/-- Identity of a field. -/
structure FieldId where
  /-- The graph. -/
  graph : GraphId
  /-- Position of the node that has the field. -/
  node : Nat
  /-- Position of the field in its node. -/
  field : Nat
  deriving DecidableEq, Repr, Inhabited

/-- One word of an enum. -/
structure EnumValue where
  /-- The word. -/
  name : String
  /-- Comments of the word. -/
  comments : List String
  deriving DecidableEq, Repr, Inhabited

/-- An argument of a field. -/
structure Argument where
  /-- The field it belongs to. -/
  field : FieldId
  /-- Its name. -/
  name : String
  /-- Its type. -/
  type : TypeRef
  /-- Whether it has a default value. -/
  hasDefault : Bool
  /-- Its own comments. -/
  comments : List String
  deriving DecidableEq, Repr, Inhabited

/-- A field of a node. -/
structure Field where
  /-- Its identity. -/
  id : FieldId
  /-- Name of the node it belongs to. -/
  owner : String
  /-- Its name. -/
  name : String
  /-- Its type. -/
  type : TypeRef
  /-- Whether it is always fetched. -/
  required : Bool
  /-- Whether it has a default value. -/
  hasDefault : Bool
  /-- Whether it is marked as primary key. -/
  primaryKey : Bool
  /-- Whether it is marked as selection. -/
  selection : Bool
  /-- Whether it is marked as resolved. -/
  resolve : Bool
  /-- Its arguments. -/
  arguments : List Argument
  /-- Its own comments. -/
  comments : List String
  deriving DecidableEq, Repr, Inhabited

/-- A declared type. -/
structure Node where
  /-- The graph it belongs to. -/
  graph : GraphId
  /-- Its position. -/
  slot : Nat
  /-- Its name. -/
  name : String
  /-- Its kind. -/
  kind : Kind
  /-- Names of the interfaces it is declared to implement. -/
  interfaces : List String
  /-- Names of its declared union members. -/
  members : List String
  /-- Its comments. -/
  comments : List String
  /-- Its enum values. -/
  values : List EnumValue
  /-- Its fields. -/
  fields : List Field
  deriving DecidableEq, Repr, Inhabited

instance : Named EnumValue := ⟨EnumValue.name⟩
instance : Named Argument := ⟨Argument.name⟩
instance : Named Field := ⟨Field.name⟩
instance : Named Node := ⟨Node.name⟩

/-- A frozen schema. -/
structure Graph where
  /-- Its identity. -/
  id : GraphId
  /-- Its nodes. -/
  nodes : List Node
  /-- Name of the query root. -/
  query : Option String
  /-- Name of the mutation root. -/
  mutation : Option String
  /-- Name of the subscription root. -/
  subscription : Option String
  /-- Warnings that arose while it was built. -/
  diagnostics : Diagnostics
  deriving Repr, Inhabited

namespace Argument

/-- Whether a caller may leave the argument out. -/
def isInitialized (argument : Argument) : Bool :=
  argument.type.nullable || argument.hasDefault

/-- Name and type. -/
def written (argument : Argument) : String :=
  argument.name ++ ": " ++ argument.type.written

/-- Whether two arguments are the same argument of the same graph. -/
def same (a b : Argument) : Bool :=
  a.field == b.field && a.name == b.name

end Argument

namespace Field

/-- The argument of a name. -/
def argument? (field : Field) (name : String) : Option Argument :=
  Catalog.find? name field.arguments

/-- Node and name. -/
def path (field : Field) : String :=
  field.owner ++ "." ++ field.name

/-- Node, name and type. -/
def written (field : Field) : String :=
  field.path ++ ": " ++ field.type.written

/-- Whether two fields are the same field of the same graph. -/
def same (a b : Field) : Bool :=
  a.id == b.id

end Field

namespace Node

/-- The field of a name. -/
def field? (node : Node) (name : String) : Option Field :=
  Catalog.find? name node.fields

/-- Kind and name. -/
def written (node : Node) : String :=
  node.kind.word ++ " " ++ node.name

/-- Whether two nodes are the same node of the same graph. -/
def same (a b : Node) : Bool :=
  a.graph == b.graph && a.name == b.name

end Node

namespace Graph

/-- The node of a name. -/
def node? (graph : Graph) (name : String) : Option Node :=
  Catalog.find? name graph.nodes

/-- Whether a node with this name exists. -/
def has (graph : Graph) (name : String) : Bool :=
  Catalog.has name graph.nodes

/-- The kind of the node of a name. -/
def kindOf? (graph : Graph) (name : String) : Option Kind :=
  (graph.node? name).map Node.kind

/-- The nodes of one kind, in order. -/
def ofKind (graph : Graph) (kind : Kind) : List Node :=
  graph.nodes.filter (·.kind == kind)

/-- Every field of every node. -/
def fields (graph : Graph) : List Field :=
  graph.nodes.flatMap Node.fields

/-- The field of an identity. An identity of another graph names no field. -/
def field? (graph : Graph) (id : FieldId) : Option Field :=
  if id.graph = graph.id then
    match graph.nodes[id.node]? with
    | some node => node.fields[id.field]?
    | none => none
  else none

/-- The node that a field belongs to. -/
def ownerOf? (graph : Graph) (field : Field) : Option Node :=
  graph.nodes[field.id.node]?

/-- The node that a type refers to. -/
def referenced? (graph : Graph) (type : TypeRef) : Option Node :=
  graph.node? type.node

/-- The query root. -/
def query? (graph : Graph) : Option Node :=
  graph.query.bind graph.node?

/-- The mutation root. -/
def mutation? (graph : Graph) : Option Node :=
  graph.mutation.bind graph.node?

/-- The subscription root. -/
def subscription? (graph : Graph) : Option Node :=
  graph.subscription.bind graph.node?

/-- The nodes of one kind that a node names, each once and itself never, in the order in
which they are first named. Names of anything else are passed over. -/
def resolve (graph : Graph) (node : Node) (kind : Kind) (names : List String) : List Node :=
  (names.eraseDups.filter (· != node.name)).filterMap fun name =>
    (graph.node? name).filter (·.kind == kind)

/-- The interfaces that a node implements, in declared order. -/
def implements (graph : Graph) (node : Node) : List Node :=
  graph.resolve node .interface node.interfaces

/-- The objects that are members of a union, in declared order. -/
def unionMembers (graph : Graph) (node : Node) : List Node :=
  graph.resolve node .object node.members

/-- The objects that a value of a polymorphic type can be: for an interface every object that
implements it, in the order of the graph; for a union its members. -/
def possibleObjects (graph : Graph) (node : Node) : List Node :=
  match node.kind with
  | .interface =>
    (graph.ofKind .object).filter fun object => (graph.implements object).any (·.same node)
  | .union => graph.unionMembers node
  | _ => []

/-- Whether values of a type are selected through a nested projection. -/
def hasProjection (graph : Graph) (type : TypeRef) : Bool :=
  (graph.referenced? type).any (·.kind.hasProjection)

/-- Whether a field can be selected without giving anything: its type has a projection and
every argument may be left out. -/
def isSelection (graph : Graph) (field : Field) : Bool :=
  graph.hasProjection field.type && field.arguments.all Argument.isInitialized

end Graph

end QuerySurface.Schema
