import QuerySurface.Catalog
import QuerySurface.Text.Case
import QuerySurface.Json.Printer
import QuerySurface.Json.Reader

/-!
# Layouts

A layout says which families of abstractions are wanted, how the names of each family are
decorated, how the two generated parameters are called, and which type of the target stands
for which scalar. A layout is read from data with every missing key at its default, except
inside a decoration, where a missing part is absent.
-/

namespace QuerySurface.Layout

/-- What stands in front of and behind a name. -/
structure Decoration where
  /-- In front of the name. -/
  front : Option String
  /-- Behind the name. -/
  back : Option String
  deriving DecidableEq, Repr, Inhabited

namespace Decoration

/-- No decoration. -/
def plain : Decoration :=
  ⟨none, none⟩

/-- A decoration behind the name. -/
def behind (back : String) : Decoration :=
  ⟨none, some back⟩

/-- A decoration in front of the name. -/
def before (front : String) : Decoration :=
  ⟨some front, none⟩

/-- Decorates a name. A name with something in front of it is capitalised. -/
def apply (decoration : Decoration) (name : String) : String :=
  (match decoration.front with
    | some front => front ++ Text.capitalize name
    | none => name) ++ decoration.back.getD ""

/-- Whether a decoration leaves every name as it is. -/
def isEmpty (decoration : Decoration) : Bool :=
  decoration.front.isNone && decoration.back.isNone

/-- A decoration as data; absent parts are left out. -/
def toValue (decoration : Decoration) : Json.Value :=
  .object
    ((decoration.front.map fun front => ("prefix", Json.Value.text front)).toList ++
      (decoration.back.map fun back => ("postfix", Json.Value.text back)).toList)

/-- Reads a decoration. -/
def reader : Json.Reader Decoration :=
  Json.Reader.record "Decoration"
    [ .may "prefix" (Json.Reader.optional Json.Reader.text)
        fun front decoration => { decoration with front },
      .may "postfix" (Json.Reader.optional Json.Reader.text)
        fun back decoration => { decoration with back } ]
    plain

end Decoration

/-- Decorations of the families. -/
structure Decorations where
  /-- Of entities. -/
  entity : Decoration
  /-- Of projections. -/
  projection : Decoration
  /-- Of qualifications. -/
  qualification : Decoration
  /-- Of qualified projections. -/
  qualifiedProjection : Decoration
  /-- Of the members of a qualification. -/
  onSubtype : Decoration
  /-- Of selections. -/
  selection : Decoration
  /-- Of queries. -/
  query : Decoration
  deriving DecidableEq, Repr, Inhabited

namespace Decorations

/-- The usual decorations. -/
def usual : Decorations :=
  { entity := .plain
    projection := .behind "Projection"
    qualification := .behind "Qualification"
    qualifiedProjection := .behind "QualifiedProjection"
    onSubtype := .before "on"
    selection := .behind "Selection"
    query := .behind "Query" }

/-- The decorations with the names of their families. -/
def named (decorations : Decorations) : List (String × Decoration) :=
  [ ("entity", decorations.entity),
    ("projection", decorations.projection),
    ("qualification", decorations.qualification),
    ("qualified_projection", decorations.qualifiedProjection),
    ("on_subtype", decorations.onSubtype),
    ("selection", decorations.selection),
    ("query", decorations.query) ]

/-- Decorations as data. -/
def toValue (decorations : Decorations) : Json.Value :=
  .object (decorations.named.map fun (family, decoration) => (family, decoration.toValue))

/-- Reads decorations; a family that is not given has its usual one. -/
def reader : Json.Reader Decorations :=
  Json.Reader.record "Decorations"
    [ .may "entity" Decoration.reader fun entity all => { all with entity },
      .may "projection" Decoration.reader fun projection all => { all with projection },
      .may "qualification" Decoration.reader fun qualification all => { all with qualification },
      .may "qualified_projection" Decoration.reader
        fun qualifiedProjection all => { all with qualifiedProjection },
      .may "on_subtype" Decoration.reader fun onSubtype all => { all with onSubtype },
      .may "selection" Decoration.reader fun selection all => { all with selection },
      .may "query" Decoration.reader fun query all => { all with query } ]
    usual

end Decorations

/-- Which families are wanted. -/
structure Families where
  /-- Whether any is. -/
  enabled : Bool
  /-- Entities. -/
  entity : Bool
  /-- Projections. -/
  projection : Bool
  /-- Selections and queries. -/
  selection : Bool
  /-- Qualifications. -/
  qualification : Bool
  /-- Qualified projections. -/
  qualifiedProjection : Bool
  deriving DecidableEq, Repr, Inhabited

namespace Families

/-- Every family. -/
def all : Families :=
  ⟨true, true, true, true, true, true⟩

/-- The families that both ask for. -/
def both (a b : Families) : Families :=
  { enabled := a.enabled && b.enabled
    entity := a.entity && b.entity
    projection := a.projection && b.projection
    selection := a.selection && b.selection
    qualification := a.qualification && b.qualification
    qualifiedProjection := a.qualifiedProjection && b.qualifiedProjection }

/-- Families as data. -/
def toValue (families : Families) : Json.Value :=
  .object
    [ ("enabled", .flag families.enabled), ("entity", .flag families.entity),
      ("projection", .flag families.projection), ("selection", .flag families.selection),
      ("qualification", .flag families.qualification),
      ("qualified_projection", .flag families.qualifiedProjection) ]

/-- Reads families; those that are not given are wanted. -/
def reader : Json.Reader Families :=
  Json.Reader.record "FamilyToggles"
    [ .may "enabled" Json.Reader.flag fun enabled families => { families with enabled },
      .may "entity" Json.Reader.flag fun entity families => { families with entity },
      .may "projection" Json.Reader.flag fun projection families => { families with projection },
      .may "selection" Json.Reader.flag fun selection families => { families with selection },
      .may "qualification" Json.Reader.flag
        fun qualification families => { families with qualification },
      .may "qualified_projection" Json.Reader.flag
        fun qualifiedProjection families => { families with qualifiedProjection } ]
    all

end Families

/-- Names of the generated parameters. -/
structure ParameterNames where
  /-- Of the parameter that configures a nested projection. -/
  projection : String
  /-- Of the parameter that configures a query. -/
  query : String
  deriving DecidableEq, Repr, Inhabited

namespace ParameterNames

/-- The usual names. -/
def usual : ParameterNames :=
  ⟨"__projection", "__query"⟩

/-- Parameter names as data. -/
def toValue (names : ParameterNames) : Json.Value :=
  .object [("projection_argument", .text names.projection), ("query_argument", .text names.query)]

/-- Reads parameter names; the usual ones stand in for those that are not given. -/
def reader : Json.Reader ParameterNames :=
  Json.Reader.record "ArgumentNames"
    [ .may "projection_argument" Json.Reader.text fun projection names => { names with projection },
      .may "query_argument" Json.Reader.text fun query names => { names with query } ]
    usual

end ParameterNames

/-- Types of the target that stand for scalars. -/
structure Scalars where
  /-- The mapped scalars with their types, in order. -/
  types : List (String × String)
  /-- The type of every other scalar. -/
  fallback : String
  deriving DecidableEq, Repr, Inhabited

instance : Named (String × String) := ⟨Prod.fst⟩

namespace Scalars

/-- The usual mapping. -/
def usual : Scalars :=
  { types :=
      [ ("ID", "String"), ("String", "String"), ("Int", "i32"), ("Float", "f64"),
        ("Boolean", "bool") ]
    fallback := "serde_json::Value" }

/-- The type of a scalar: that of its very name, else that of the first name that differs in
the case of ASCII letters only, else the fallback. -/
def typeOf (scalars : Scalars) (scalar : String) : String :=
  match Catalog.find? scalar scalars.types with
  | some entry => entry.2
  | none =>
    match scalars.types.find? (fun entry => Text.equalIgnoringCase entry.1 scalar) with
    | some entry => entry.2
    | none => scalars.fallback

/-- Scalars as data. -/
def toValue (scalars : Scalars) : Json.Value :=
  .object
    [ ("types", .object (scalars.types.map fun (scalar, type) => (scalar, .text type))),
      ("fallback", .text scalars.fallback) ]

/-- Members of an object of texts, in the order of the text. A repeated key keeps its place and
takes the last value. -/
def readTypes (room : Nat) (types : List (String × String)) :
    List Json.Member → Except Json.Problem (List (String × String))
  | [] => .ok types
  | .mk key sound tree :: rest =>
    if !sound then .error .malformed
    else do
      let type ← Json.Reader.text room tree
      readTypes room (Catalog.put (key, type) types) rest

/-- Reads a mapping. -/
def typesReader : Json.Reader (List (String × String))
  | room, .object members ending => do
    let room ← Json.Reader.enter room
    let types ← readTypes room [] members
    ending.read
    return types
  | _, tree => .error (tree.unexpected "a map")

/-- Reads scalars; what is not given is usual. -/
def reader : Json.Reader Scalars :=
  Json.Reader.record "ScalarMappings"
    [ .may "types" typesReader fun types scalars => { scalars with types },
      .may "fallback" Json.Reader.text fun fallback scalars => { scalars with fallback } ]
    usual

end Scalars

end QuerySurface.Layout

namespace QuerySurface

/-- A layout. -/
structure Layout where
  /-- Wanted families. -/
  families : Layout.Families
  /-- Decorations of the families. -/
  decorations : Layout.Decorations
  /-- Names of the generated parameters. -/
  parameters : Layout.ParameterNames
  /-- Types that stand for scalars. -/
  scalars : Layout.Scalars
  deriving DecidableEq, Repr, Inhabited

namespace Layout

/-- The usual layout. -/
def usual : Layout :=
  ⟨.all, .usual, .usual, .usual⟩

/-- A layout as data. -/
def toValue (layout : Layout) : Json.Value :=
  .object
    [ ("families", layout.families.toValue), ("decorations", layout.decorations.toValue),
      ("arguments", layout.parameters.toValue), ("scalars", layout.scalars.toValue) ]

/-- Reads a layout; what is not given is usual. -/
def reader : Json.Reader Layout :=
  Json.Reader.record "LayoutConfiguration"
    [ .may "families" Families.reader fun families layout => { layout with families },
      .may "decorations" Decorations.reader fun decorations layout => { layout with decorations },
      .may "arguments" ParameterNames.reader fun parameters layout => { layout with parameters },
      .may "scalars" Scalars.reader fun scalars layout => { layout with scalars } ]
    usual

end Layout

end QuerySurface
