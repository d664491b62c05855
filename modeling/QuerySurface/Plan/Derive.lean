import QuerySurface.Failure
import QuerySurface.Layout.Naming
import QuerySurface.Layout.Check
import QuerySurface.Plan.Prune
import QuerySurface.Schema.Overrides

/-!
# Deriving plans

The plan of every node of a graph. Nodes with fields have an entity and a projection;
interfaces and unions also have a qualification and a qualified projection; each field that
can be selected without giving anything has a selection and a query. The families that a
layout wants play no part here: every family is derived, and pruning follows.
-/

namespace QuerySurface.Plan

open Schema (Graph Node Field Argument TypeRef)

/-- What plans are derived from. -/
structure Engine where
  /-- The schema. -/
  graph : Graph
  /-- The layout, of which only names are read. -/
  layout : Layout

namespace Engine

/-- How a value of a type appears in a plan. -/
def valueType (engine : Engine) (type : TypeRef) : TypeExpr :=
  match engine.graph.kindOf? type.node with
  | none | some .scalar => .value .scalar type.node type.list type.nullable
  | some .enum | some .input => .value .named type.node type.list type.nullable
  | some _ =>
    .value .entity (engine.layout.decorations.entityName type.node) type.list type.nullable

/-- Name of what configures a nested selection of a type. -/
def nestedProjection (engine : Engine) (type : TypeRef) : String :=
  match engine.graph.referenced? type with
  | some target => engine.layout.decorations.nestedName target
  | none => engine.layout.decorations.projectionName type.node

/-- The accessor of a field. -/
def accessor (engine : Engine) (field : Field) : Property :=
  { name := field.name
    type := engine.valueType field.type
    isOverride := engine.graph.isOverride field
    isMutable := false
    comments := engine.graph.fieldComments field }

/-- The data view of a node: an accessor for every field. -/
def entity (engine : Engine) (node : Node) : Abstraction :=
  { family := .entity
    name := engine.layout.decorations.entityName node.name
    supertypes :=
      (engine.graph.implements node).map fun parent =>
        engine.layout.decorations.entityName parent.name
    comments := node.comments
    field := none
    members := node.fields.map fun field => .property (engine.accessor field) }

/-- The parameter of an argument. -/
def argumentParameter (engine : Engine) (hasDefault : Bool) (argument : Argument) : Parameter :=
  { name := argument.name
    type := engine.valueType argument.type
    hasDefault := hasDefault
    comments := engine.graph.argumentComments argument }

/-- The parameter that configures what is selected of the value of a field. -/
def configurator (engine : Engine) (node : Node) (field : Field) : Parameter :=
  if engine.graph.isSelection field then
    { name := engine.layout.parameters.query
      type := .configurator (engine.layout.decorations.queryName node.name field.name)
      hasDefault := true
      comments := [] }
  else
    { name := engine.layout.parameters.projection
      type := .configurator (engine.nestedProjection field.type)
      hasDefault := true
      comments := [] }

/-- Parameters of the selector of a field: the arguments that have to be given; then the other
arguments, unless the selection of the field takes them; then a configurator if the value
of the field has a projection. -/
def selectorParameters (engine : Engine) (node : Node) (field : Field) : List Parameter :=
  (field.arguments.filter (!·.isInitialized)).map (engine.argumentParameter false) ++
    (if engine.graph.isSelection field then []
      else (field.arguments.filter (·.isInitialized)).map (engine.argumentParameter true)) ++
    (if engine.graph.hasProjection field.type then [engine.configurator node field] else [])

/-- The selector of a field. It is inherited if the overridden field has a selector too. -/
def selector (engine : Engine) (node : Node) (field : Field) : Method :=
  { name := field.name
    parameters := engine.selectorParameters node field
    isAbstract := true
    isOverride := (engine.graph.overridden? field).any (!·.required)
    comments := engine.graph.fieldComments field }

/-- The selection view of a node: a selector for every field that is not always fetched. -/
def projection (engine : Engine) (node : Node) : Abstraction :=
  { family := .projection
    name := engine.layout.decorations.projectionName node.name
    supertypes :=
      (engine.graph.implements node).map fun parent =>
        engine.layout.decorations.projectionName parent.name
    comments := node.comments
    field := none
    members :=
      (node.fields.filter (!·.required)).map fun field => .method (engine.selector node field) }

/-- The member that narrows a selection to a subtype. -/
def narrowing (engine : Engine) (subtype : Node) : Method :=
  { name := engine.layout.decorations.onSubtypeName subtype.name
    parameters :=
      [{ name := engine.layout.parameters.projection
         type := .configurator (engine.layout.decorations.projectionName subtype.name)
         hasDefault := true
         comments := [] }]
    isAbstract := true
    isOverride := false
    comments := subtype.comments }

/-- The failure to derive something that only interfaces and unions have. -/
def notPolymorphic (node : Node) (family : String) : Failure :=
  .generation node.name
    (family ++ " requested for a " ++ node.kind.word ++
      " node; only interfaces and unions have one")

/-- Selection per subtype, for every object that a value of the node can be. -/
def qualificationOf (engine : Engine) (node : Node) : Abstraction :=
  { family := .qualification
    name := engine.layout.decorations.qualificationName node.name
    supertypes := []
    comments := node.comments
    field := none
    members :=
      (engine.graph.possibleObjects node).map fun subtype => .method (engine.narrowing subtype) }

/-- The qualification of a node, if nodes of its kind have one. -/
def qualification (engine : Engine) (node : Node) : Outcome Abstraction :=
  if node.kind.isPolymorphic then .ok (engine.qualificationOf node)
  else .error (notPolymorphic node "qualification")

/-- Projection and qualification of a node together. -/
def qualifiedProjectionOf (engine : Engine) (node : Node) : Abstraction :=
  { family := .qualifiedProjection
    name := engine.layout.decorations.qualifiedProjectionName node.name
    supertypes :=
      [ engine.layout.decorations.projectionName node.name,
        engine.layout.decorations.qualificationName node.name ]
    comments := node.comments
    field := none
    members := [] }

/-- The qualified projection of a node, if nodes of its kind have one. -/
def qualifiedProjection (engine : Engine) (node : Node) : Outcome Abstraction :=
  if node.kind.isPolymorphic then .ok (engine.qualifiedProjectionOf node)
  else .error (notPolymorphic node "qualified projection")

/-- The property that sets an argument. -/
def setter (engine : Engine) (argument : Argument) : Property :=
  { name := argument.name
    type := engine.valueType argument.type
    isOverride := false
    isMutable := true
    comments := engine.graph.argumentComments argument }

/-- The arguments of a field that may be absent, to be set. -/
def selection (engine : Engine) (node : Node) (field : Field) : Abstraction :=
  { family := .selection
    name := engine.layout.decorations.selectionName node.name field.name
    supertypes := []
    comments := engine.graph.fieldComments field
    field := some field.name
    members :=
      (field.arguments.filter (·.type.nullable)).map fun argument =>
        .property (engine.setter argument) }

/-- The selection of a field together with the nested projection of its type. -/
def query (engine : Engine) (node : Node) (field : Field) : Abstraction :=
  { family := .query
    name := engine.layout.decorations.queryName node.name field.name
    supertypes :=
      [ engine.layout.decorations.selectionName node.name field.name,
        engine.nestedProjection field.type ]
    comments := engine.graph.fieldComments field
    field := some field.name
    members := [] }

/-- Selection and query of every field that can be selected without giving anything. -/
def selections (engine : Engine) (node : Node) : List Abstraction :=
  (node.fields.filter engine.graph.isSelection).flatMap fun field =>
    [engine.selection node field, engine.query node field]

/-- The plan of a node. -/
def plan (engine : Engine) (node : Node) : Outcome NodePlan := do
  let abstractions ← match node.kind with
    | .scalar | .enum | .input => pure []
    | .query | .mutation | .object =>
      pure ([engine.entity node, engine.projection node] ++ engine.selections node)
    | .interface | .union => do
      let qualification ← engine.qualification node
      let qualifiedProjection ← engine.qualifiedProjection node
      pure
        ([engine.entity node, engine.projection node, qualification, qualifiedProjection] ++
          engine.selections node)
  return ⟨node.name, node.kind, abstractions⟩

/-- Plans of nodes, in order; the first failure ends it. -/
def plansOf (engine : Engine) : List Node → Outcome (List NodePlan)
  | [] => .ok []
  | node :: rest => do
    let plan ← engine.plan node
    let plans ← plansOf engine rest
    return plan :: plans

/-- Plans of all nodes of the graph. -/
def plans (engine : Engine) : Outcome (List NodePlan) :=
  engine.plansOf engine.graph.nodes

end Engine

/-- The plans that a layout wants of a graph: the layout is checked, every node is derived, and
the families that are not wanted are pruned. -/
def generate (graph : Graph) (layout : Layout) : Outcome (List NodePlan) := do
  layout.check
  let plans ← (Engine.mk graph layout).plans
  return prune layout.families plans

end QuerySurface.Plan
