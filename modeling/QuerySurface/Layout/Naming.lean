import QuerySurface.Layout.Basic
import QuerySurface.Schema.Graph

/-!
# Names of abstractions

What the abstractions of a node and of a field are called under some decorations. Names of
a field join the node and the capitalised field before they are decorated.
-/

namespace QuerySurface.Layout

/-- Node and field joined, `Person` and `pet` to `PersonPet`. -/
def joined (node field : String) : String :=
  node ++ Text.capitalize field

namespace Decorations

/-- Name of the entity of a node. -/
def entityName (decorations : Decorations) (node : String) : String :=
  decorations.entity.apply node

/-- Name of the projection of a node. -/
def projectionName (decorations : Decorations) (node : String) : String :=
  decorations.projection.apply node

/-- Name of the qualification of a node. -/
def qualificationName (decorations : Decorations) (node : String) : String :=
  decorations.qualification.apply node

/-- Name of the qualified projection of a node. -/
def qualifiedProjectionName (decorations : Decorations) (node : String) : String :=
  decorations.qualifiedProjection.apply node

/-- Name of the member that narrows to a subtype. -/
def onSubtypeName (decorations : Decorations) (subtype : String) : String :=
  decorations.onSubtype.apply subtype

/-- Name of the selection of a field. -/
def selectionName (decorations : Decorations) (node field : String) : String :=
  decorations.selection.apply (joined node field)

/-- Name of the query of a field. -/
def queryName (decorations : Decorations) (node field : String) : String :=
  decorations.query.apply (joined node field)

/-- Name of what configures a nested selection of a node: the qualified projection of an
interface or union, the projection of anything else. -/
def nestedName (decorations : Decorations) (node : Schema.Node) : String :=
  if node.kind.isPolymorphic then decorations.qualifiedProjectionName node.name
  else decorations.projectionName node.name

end Decorations

end QuerySurface.Layout
