import QuerySurface.Schema.Graph

/-!
# Overridden fields

A field overrides the field of the same name of the first interface, in declared order, that
its node implements and that has one. Only the directly implemented interfaces count, and
types are not compared. Following this from field to field gives the chain of a field, along
which missing comments are looked up.
-/

namespace QuerySurface.Schema.Graph

/-- The interface field that a field overrides. -/
def overridden? (graph : Graph) (field : Field) : Option Field :=
  match graph.ownerOf? field with
  | some owner => (graph.implements owner).findSome? (·.field? field.name)
  | none => none

/-- Whether a field overrides another. -/
def isOverride (graph : Graph) (field : Field) : Bool :=
  (graph.overridden? field).isSome

/-- A field and up to `steps` fields behind it on its chain. -/
def chainFor (graph : Graph) : (steps : Nat) → Field → List Field
  | 0, field => [field]
  | steps + 1, field =>
    match graph.overridden? field with
    | some next => field :: chainFor graph steps next
    | none => [field]

/-- The chain of a field. A chain may run into a cycle of interfaces; as many steps as the graph
has fields then show every field that is on it. -/
def chain (graph : Graph) (field : Field) : List Field :=
  graph.chainFor graph.fields.length field

/-- The first comments in a list that are not empty. -/
def firstComments (comments : List (List String)) : List String :=
  (comments.find? (!·.isEmpty)).getD []

/-- The comments of a field: the first on its chain. -/
def fieldComments (graph : Graph) (field : Field) : List String :=
  firstComments ((graph.chain field).map Field.comments)

/-- The arguments of one name along a chain, up to the first field that has none. -/
def argumentsAlong (name : String) : List Field → List Argument
  | [] => []
  | field :: rest =>
    match field.argument? name with
    | some argument => argument :: argumentsAlong name rest
    | none => []

/-- The comments of an argument: the first on the chain of its field, as far as the fields of
the chain have an argument of its name. -/
def argumentComments (graph : Graph) (argument : Argument) : List String :=
  match graph.field? argument.field with
  | some field =>
    firstComments ((argumentsAlong argument.name (graph.chain field)).map Argument.comments)
  | none => []

end QuerySurface.Schema.Graph
