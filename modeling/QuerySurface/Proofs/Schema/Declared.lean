import QuerySurface.Proofs.Catalog.LastWins
import QuerySurface.Schema.Declaration

/-!
# What declarations say

A schema is a list of steps. Read without building anything, it is a list of declared nodes,
each with a list of declared fields, each with a list of declared arguments; names may repeat
on every level. The node, field or argument that a declaration stands for is made from that
declaration alone, and from the place where it will stand.
-/

namespace QuerySurface.Schema

open Catalog (surviving)

/-! ## Parts of a step -/

/-- A declared argument. -/
structure ArgumentDeclaration where
  /-- Its name. -/
  name : String
  /-- Its type. -/
  type : TypeRef
  /-- Whether it has a default value. -/
  hasDefault : Bool
  /-- Its comments. -/
  comments : List String
  deriving DecidableEq, Repr

/-- A declared field. -/
structure FieldDeclaration where
  /-- Its name. -/
  name : String
  /-- Its type. -/
  type : TypeRef
  /-- Whether it is always fetched. -/
  required : Bool
  /-- Whether it has a default value. -/
  hasDefault : Bool
  /-- The steps that fill it. -/
  body : List FieldStep
  deriving DecidableEq, Repr

/-- A declared node. -/
structure NodeDeclaration where
  /-- Its name. -/
  name : String
  /-- Its kind. -/
  kind : Kind
  /-- The steps that fill it. -/
  body : List NodeStep
  deriving DecidableEq, Repr

instance : Named ArgumentDeclaration := ⟨ArgumentDeclaration.name⟩
instance : Named FieldDeclaration := ⟨FieldDeclaration.name⟩
instance : Named NodeDeclaration := ⟨NodeDeclaration.name⟩

namespace FieldStep

/-- The comment that a step adds. -/
def comment? : FieldStep → Option String
  | .comment text => some text
  | _ => none

/-- The mark as primary key that a step sets. -/
def primaryKey? : FieldStep → Option Bool
  | .primaryKey value => some value
  | _ => none

/-- The mark as selection that a step sets. -/
def selection? : FieldStep → Option Bool
  | .selection value => some value
  | _ => none

/-- The mark as resolved that a step sets. -/
def resolve? : FieldStep → Option Bool
  | .resolve value => some value
  | _ => none

/-- The argument that a step declares. -/
def argument? : FieldStep → Option ArgumentDeclaration
  | .argument name type hasDefault comments => some ⟨name, type, hasDefault, comments⟩
  | _ => none

end FieldStep

namespace NodeStep

/-- The interface that a step adds. -/
def interface? : NodeStep → Option String
  | .implements interface => some interface
  | _ => none

/-- The union member that a step adds. -/
def member? : NodeStep → Option String
  | .member object => some object
  | _ => none

/-- The comment that a step adds. -/
def comment? : NodeStep → Option String
  | .comment text => some text
  | _ => none

/-- The enum value that a step declares. -/
def value? : NodeStep → Option EnumValue
  | .enumValue name comments => some ⟨name, comments⟩
  | _ => none

/-- The field that a step declares. -/
def field? : NodeStep → Option FieldDeclaration
  | .field name type required hasDefault body => some ⟨name, type, required, hasDefault, body⟩
  | _ => none

end NodeStep

namespace SchemaStep

/-- The node that a step declares. -/
def node? : SchemaStep → Option NodeDeclaration
  | .node name kind body => some ⟨name, kind, body⟩
  | _ => none

/-- The query root that a step names. -/
def query? : SchemaStep → Option String
  | .query name => some name
  | _ => none

/-- The mutation root that a step names. -/
def mutation? : SchemaStep → Option String
  | .mutation name => some name
  | _ => none

/-- The subscription root that a step names. -/
def subscription? : SchemaStep → Option String
  | .subscription name => some name
  | _ => none

end SchemaStep

/-! ## What a declaration stands for -/

/-- The argument that a declaration stands for, in a field. -/
def ArgumentDeclaration.argument (field : FieldId) (declared : ArgumentDeclaration) : Argument :=
  ⟨field, declared.name, declared.type, declared.hasDefault, declared.comments⟩

namespace FieldDeclaration

/-- The comments of a declared field. -/
def comments (declared : FieldDeclaration) : List String :=
  declared.body.filterMap FieldStep.comment?

/-- The mark as primary key: the one that was set last. -/
def primaryKey (declared : FieldDeclaration) : Bool :=
  (declared.body.filterMap FieldStep.primaryKey?).getLastD false

/-- The mark as selection: the one that was set last. -/
def selection (declared : FieldDeclaration) : Bool :=
  (declared.body.filterMap FieldStep.selection?).getLastD false

/-- The mark as resolved: the one that was set last. -/
def resolve (declared : FieldDeclaration) : Bool :=
  (declared.body.filterMap FieldStep.resolve?).getLastD false

/-- The declared arguments, repetitions included. -/
def arguments (declared : FieldDeclaration) : List ArgumentDeclaration :=
  declared.body.filterMap FieldStep.argument?

/-- The field that a declaration stands for, in a node and under an identity. -/
def field (id : FieldId) (owner : String) (declared : FieldDeclaration) : Field :=
  { id := id
    owner := owner
    name := declared.name
    type := declared.type
    required := declared.required
    hasDefault := declared.hasDefault
    primaryKey := declared.primaryKey
    selection := declared.selection
    resolve := declared.resolve
    arguments := (surviving declared.arguments).map (ArgumentDeclaration.argument id)
    comments := declared.comments }

end FieldDeclaration

namespace NodeDeclaration

/-- The names of declared interfaces. -/
def interfaces (declared : NodeDeclaration) : List String :=
  declared.body.filterMap NodeStep.interface?

/-- The names of declared union members. -/
def members (declared : NodeDeclaration) : List String :=
  declared.body.filterMap NodeStep.member?

/-- The comments of a declared node. -/
def comments (declared : NodeDeclaration) : List String :=
  declared.body.filterMap NodeStep.comment?

/-- The declared enum values, repetitions included. -/
def values (declared : NodeDeclaration) : List EnumValue :=
  declared.body.filterMap NodeStep.value?

/-- The declared fields, repetitions included. -/
def fields (declared : NodeDeclaration) : List FieldDeclaration :=
  declared.body.filterMap NodeStep.field?

/-- The field that a declaration inside a node stands for, at a place. -/
def fieldAt (graph : GraphId) (slot : Nat) (owner : String) (place : Nat)
    (declared : FieldDeclaration) : Field :=
  declared.field ⟨graph, slot, place⟩ owner

/-- The node that a declaration stands for, in a graph and at a place. -/
def node (graph : GraphId) (slot : Nat) (declared : NodeDeclaration) : Node :=
  { graph := graph
    slot := slot
    name := declared.name
    kind := declared.kind
    interfaces := declared.interfaces
    members := declared.members
    comments := declared.comments
    values := surviving declared.values
    fields := (surviving declared.fields).mapIdx (fieldAt graph slot declared.name) }

end NodeDeclaration

/-- The declared nodes, repetitions included. -/
def declarations (steps : List SchemaStep) : List NodeDeclaration :=
  steps.filterMap SchemaStep.node?

/-- The nodes that declarations stand for. -/
def declaredNodes (graph : GraphId) (steps : List SchemaStep) : List Node :=
  (surviving (declarations steps)).mapIdx (NodeDeclaration.node graph)

/-- The query root that was named last. -/
def namedQuery (steps : List SchemaStep) : Option String :=
  (steps.filterMap SchemaStep.query?).getLast?

/-- The mutation root that was named last. -/
def namedMutation (steps : List SchemaStep) : Option String :=
  (steps.filterMap SchemaStep.mutation?).getLast?

/-- The subscription root that was named last. -/
def namedSubscription (steps : List SchemaStep) : Option String :=
  (steps.filterMap SchemaStep.subscription?).getLast?

/-! ## Agreement of stored and declared -/

/-- A stored argument is as declared. -/
structure ArgumentDeclaration.Describes (declared : ArgumentDeclaration) (stored : Argument) :
    Prop where
  /-- The type is. -/
  type : stored.type = declared.type
  /-- The default is. -/
  hasDefault : stored.hasDefault = declared.hasDefault
  /-- The comments are. -/
  comments : stored.comments = declared.comments

/-- A stored field is as declared, and its arguments are those that were declared last. -/
structure FieldDeclaration.Describes (declared : FieldDeclaration) (stored : Field) : Prop where
  /-- The type is. -/
  type : stored.type = declared.type
  /-- The mark as required is. -/
  required : stored.required = declared.required
  /-- The default is. -/
  hasDefault : stored.hasDefault = declared.hasDefault
  /-- The mark as primary key is. -/
  primaryKey : stored.primaryKey = declared.primaryKey
  /-- The mark as selection is. -/
  selection : stored.selection = declared.selection
  /-- The mark as resolved is. -/
  resolve : stored.resolve = declared.resolve
  /-- The comments are. -/
  comments : stored.comments = declared.comments
  /-- The last declaration wins among the arguments. -/
  arguments : Catalog.LastWins ArgumentDeclaration.Describes declared.arguments stored.arguments

/-- A stored node is as declared, and its enum values and fields are those that were declared
last. -/
structure NodeDeclaration.Describes (declared : NodeDeclaration) (stored : Node) : Prop where
  /-- The kind is. -/
  kind : stored.kind = declared.kind
  /-- The interfaces are. -/
  interfaces : stored.interfaces = declared.interfaces
  /-- The union members are. -/
  members : stored.members = declared.members
  /-- The comments are. -/
  comments : stored.comments = declared.comments
  /-- The last declaration wins among the enum values. -/
  values : Catalog.LastWins Eq declared.values stored.values
  /-- The last declaration wins among the fields. -/
  fields : Catalog.LastWins FieldDeclaration.Describes declared.fields stored.fields

/-- The field that a declaration stands for is as declared. -/
theorem FieldDeclaration.describes_field (id : FieldId) (owner : String)
    (declared : FieldDeclaration) : declared.Describes (declared.field id owner) where
  type := rfl
  required := rfl
  hasDefault := rfl
  primaryKey := rfl
  selection := rfl
  resolve := rfl
  comments := rfl
  arguments := by
    apply Catalog.lastWins_map
    · simp only [field, Catalog.names, List.map_map]
      rfl
    · intro stored hs
      obtain ⟨source, hm, rfl⟩ := List.mem_map.mp hs
      exact ⟨source, hm, rfl, ⟨rfl, rfl, rfl⟩⟩

/-- The fields of a node keep the names of their declarations. -/
theorem NodeDeclaration.names_fields (graph : GraphId) (slot : Nat) (declared : NodeDeclaration) :
    Catalog.names (declared.node graph slot).fields =
      Catalog.names (surviving declared.fields) :=
  Catalog.names_mapIdx (fieldAt graph slot declared.name) (fun _ _ => rfl) _

/-- The node that a declaration stands for is as declared. -/
theorem NodeDeclaration.describes_node (graph : GraphId) (slot : Nat)
    (declared : NodeDeclaration) : declared.Describes (declared.node graph slot) where
  kind := rfl
  interfaces := rfl
  members := rfl
  comments := rfl
  values := Catalog.lastWins_map rfl fun value hv => ⟨value, hv, rfl, rfl⟩
  fields := by
    apply Catalog.lastWins_map (declared.names_fields graph slot)
    intro stored hs
    obtain ⟨place, hp, rfl⟩ := List.mem_mapIdx.mp hs
    exact ⟨_, List.getElem_mem hp, rfl, FieldDeclaration.describes_field _ _ _⟩

/-- The declared nodes keep the names of their declarations. -/
theorem names_declaredNodes (graph : GraphId) (steps : List SchemaStep) :
    Catalog.names (declaredNodes graph steps) =
      Catalog.names (surviving (declarations steps)) :=
  Catalog.names_mapIdx (NodeDeclaration.node graph) (fun _ _ => rfl) _

/-- Among the declared nodes the last declaration wins, on every level. -/
theorem lastWins_declaredNodes (graph : GraphId) (steps : List SchemaStep) :
    Catalog.LastWins NodeDeclaration.Describes (declarations steps)
      (declaredNodes graph steps) := by
  apply Catalog.lastWins_map (names_declaredNodes graph steps)
  intro stored hs
  obtain ⟨slot, hp, rfl⟩ := List.mem_mapIdx.mp hs
  exact ⟨_, List.getElem_mem hp, rfl, NodeDeclaration.describes_node _ _ _⟩

end QuerySurface.Schema
