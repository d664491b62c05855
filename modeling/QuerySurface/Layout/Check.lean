import QuerySurface.Failure
import QuerySurface.Text.Blank
import QuerySurface.Text.Identifier
import QuerySurface.Layout.Basic

/-!
# Checking a layout

A layout is refused if it would make names that are no identifiers, names that collide by
their decoration alone, or types that are empty. The checks run in a fixed order and the
first that fails gives the message.
-/

namespace QuerySurface.Layout

/-- Refuses with a message unless a condition holds. -/
def require (condition : Bool) (message : String) : Outcome Unit :=
  if condition then .ok () else .error (.configuration message)

/-- Runs a check on each of several things, in order. -/
def requireAll {α : Type} (check : α → Outcome Unit) : List α → Outcome Unit
  | [] => .ok ()
  | item :: rest => do
    check item
    requireAll check rest

/-- The name of a parameter has to be an identifier. -/
def checkParameter (key name : String) : Outcome Unit :=
  require (Text.isIdentifier name.toList) (key ++ " must be an identifier, got '" ++ name ++ "'")

/-- What stands in front of a name starts an identifier; what stands behind extends one. -/
def checkDecoration (entry : String × Decoration) : Outcome Unit := do
  let (family, decoration) := entry
  match decoration.front with
  | some front =>
    require (Text.isIdentifier front.toList)
      ("decorations." ++ family ++ ".prefix must start an identifier, got '" ++ front ++ "'")
  | none => .ok ()
  match decoration.back with
  | some back =>
    require (Text.isFragment back.toList)
      ("decorations." ++ family ++ ".postfix must be a non-empty name fragment, got '" ++ back ++
        "'")
  | none => .ok ()

/-- Two families that name the same things must not be decorated alike. -/
def checkPair (pair : (String × Decoration) × (String × Decoration)) : Outcome Unit :=
  require (pair.1.2 != pair.2.2)
    ("decorations." ++ pair.1.1 ++ " and decorations." ++ pair.2.1 ++
      " are identical; generated names would collide")

/-- All pairs of different entries of a list, in order. -/
def pairs {α : Type} : List α → List (α × α)
  | [] => []
  | item :: rest => rest.map (item, ·) ++ pairs rest

/-- The families whose names are made from the name of a node. -/
def Decorations.nodeLevel (decorations : Decorations) : List (String × Decoration) :=
  [ ("entity", decorations.entity), ("projection", decorations.projection),
    ("qualification", decorations.qualification),
    ("qualified_projection", decorations.qualifiedProjection) ]

/-- The families whose names are made from the names of a node and a field. -/
def Decorations.fieldLevel (decorations : Decorations) : List (String × Decoration) :=
  [("selection", decorations.selection), ("query", decorations.query)]

/-- The type of a scalar must not be empty. -/
def checkScalar (entry : String × String) : Outcome Unit :=
  require (!Text.isBlankText entry.2) ("scalars.types." ++ entry.1 ++ " must not be empty")

/-- Checks a layout. -/
def check (layout : Layout) : Outcome Unit := do
  checkParameter "arguments.projection_argument" layout.parameters.projection
  checkParameter "arguments.query_argument" layout.parameters.query
  require (layout.parameters.projection != layout.parameters.query)
    ("arguments.projection_argument and arguments.query_argument are both '" ++
      layout.parameters.query ++ "'")
  requireAll checkDecoration layout.decorations.named
  require (!layout.decorations.onSubtype.isEmpty)
    "decorations.on_subtype needs a prefix or postfix"
  requireAll checkPair (pairs layout.decorations.nodeLevel)
  requireAll checkPair (pairs layout.decorations.fieldLevel)
  require (!Text.isBlankText layout.scalars.fallback) "scalars.fallback must not be empty"
  requireAll checkScalar layout.scalars.types

end QuerySurface.Layout
