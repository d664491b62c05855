import QuerySurface.Layout.Basic
import QuerySurface.Schema.Kind

/-!
# Generation plans

What is to be generated for a node, free of any target language: an ordered list of
abstractions, each with supertypes and members. Scalars keep the names they have in the
schema. Plans are plain values and can be compared.
-/

namespace QuerySurface.Plan

/-- Families of abstractions. A query belongs to the family of selections. -/
inductive Family where
  /-- Access to the data of a node. -/
  | entity
  /-- Selection of the fields of a node. -/
  | projection
  /-- Selection per subtype. -/
  | qualification
  /-- Both of these together. -/
  | qualifiedProjection
  /-- The arguments of a field. -/
  | selection
  /-- The arguments of a field together with the projection of its type. -/
  | query
  deriving DecidableEq, Repr, Inhabited

namespace Family

/-- Every family, in order. -/
def all : List Family :=
  [.entity, .projection, .qualification, .qualifiedProjection, .selection, .query]

/-- The word for a family in data. -/
def word : Family → String
  | .entity => "entity"
  | .projection => "projection"
  | .qualification => "qualification"
  | .qualifiedProjection => "qualified_projection"
  | .selection => "selection"
  | .query => "query"

/-- The family of a word. -/
def ofWord? (word : String) : Option Family :=
  all.find? (fun family => family.word == word)

/-- Whether a family is wanted. -/
def isEnabled (family : Family) (families : Layout.Families) : Bool :=
  families.enabled &&
    match family with
    | .entity => families.entity
    | .projection => families.projection
    | .qualification => families.qualification
    | .qualifiedProjection => families.qualifiedProjection
    | .selection | .query => families.selection

end Family

/-- How a type of the schema appears in a plan. -/
inductive Shape where
  /-- A scalar, under its name in the schema. -/
  | scalar
  /-- An enum or input, under its own name. -/
  | named
  /-- The entity of a node, under the name of the entity. -/
  | entity
  deriving DecidableEq, Repr, Inhabited

/-- Type of a member or parameter. -/
inductive TypeExpr where
  /-- A value. -/
  | value (shape : Shape) (name : String) (list nullable : Bool)
  /-- Something that configures an abstraction, by its name. -/
  | configurator (target : String)
  deriving DecidableEq, Repr, Inhabited

/-- The abstraction that a type configures. -/
def TypeExpr.target? : TypeExpr → Option String
  | .value _ _ _ _ => none
  | .configurator target => some target

/-- A parameter of a method. -/
structure Parameter where
  /-- Its name. -/
  name : String
  /-- Its type. -/
  type : TypeExpr
  /-- Whether a caller may leave it out. -/
  hasDefault : Bool
  /-- Its comments. -/
  comments : List String
  deriving DecidableEq, Repr, Inhabited

/-- A property. -/
structure Property where
  /-- Its name. -/
  name : String
  /-- Its type. -/
  type : TypeExpr
  /-- Whether it is inherited. -/
  isOverride : Bool
  /-- Whether it is set and not read. -/
  isMutable : Bool
  /-- Its comments. -/
  comments : List String
  deriving DecidableEq, Repr, Inhabited

/-- A method. -/
structure Method where
  /-- Its name. -/
  name : String
  /-- Its parameters. -/
  parameters : List Parameter
  /-- Whether it is left to be defined. -/
  isAbstract : Bool
  /-- Whether it is inherited. -/
  isOverride : Bool
  /-- Its comments. -/
  comments : List String
  deriving DecidableEq, Repr, Inhabited

/-- A member of an abstraction. -/
inductive Member where
  /-- A property. -/
  | property (property : Property)
  /-- A method. -/
  | method (method : Method)
  deriving DecidableEq, Repr, Inhabited

namespace Member

/-- The name of a member. -/
def name : Member → String
  | .property it => it.name
  | .method it => it.name

/-- Whether a member is inherited. -/
def isOverride : Member → Bool
  | .property it => it.isOverride
  | .method it => it.isOverride

/-- The property that a member is. -/
def property? : Member → Option Property
  | .property it => some it
  | .method _ => none

/-- The method that a member is. -/
def method? : Member → Option Method
  | .property _ => none
  | .method it => some it

end Member

/-- An abstraction. -/
structure Abstraction where
  /-- Its family. -/
  family : Family
  /-- Its name. -/
  name : String
  /-- Names of the abstractions it extends. -/
  supertypes : List String
  /-- Its comments. -/
  comments : List String
  /-- The field that it belongs to. -/
  field : Option String
  /-- Its members. -/
  members : List Member
  deriving DecidableEq, Repr, Inhabited

/-- The first member of a name. -/
def Abstraction.member? (abstraction : Abstraction) (name : String) : Option Member :=
  abstraction.members.find? (·.name == name)

/-- What is generated for a node. -/
structure NodePlan where
  /-- Name of the node. -/
  node : String
  /-- Kind of the node. -/
  kind : Schema.Kind
  /-- Its abstractions. -/
  abstractions : List Abstraction
  deriving DecidableEq, Repr, Inhabited

namespace NodePlan

/-- Whether nothing is generated. -/
def isEmpty (plan : NodePlan) : Bool :=
  plan.abstractions.isEmpty

/-- The first abstraction of a family. -/
def ofFamily? (plan : NodePlan) (family : Family) : Option Abstraction :=
  plan.abstractions.find? (·.family == family)

/-- The first abstraction of a name. -/
def named? (plan : NodePlan) (name : String) : Option Abstraction :=
  plan.abstractions.find? (·.name == name)

end NodePlan

end QuerySurface.Plan
