import QuerySurface.Plan.Basic
import QuerySurface.Traits.Name
import QuerySurface.Text.Blank

/-!
# Plans as Rust traits

Every abstraction becomes a trait, and its supertypes the traits that it extends. Properties
become getters, or setters if they are mutable; methods stay methods. Inherited members are
left out. A source is a list of lines, each of them code or a comment, so that what comments
contribute can be told from the rest.
-/

namespace QuerySurface.Traits

open Plan (TypeExpr Parameter Property Method Member Abstraction NodePlan)
open Layout (Scalars)

/-- A line of a source. -/
inductive Line where
  /-- A line of a documentation comment, at an indentation. -/
  | comment (indentation text : String)
  /-- A line of code. -/
  | code (text : String)
  deriving DecidableEq, Repr, Inhabited

/-- The text of a line. -/
def Line.text : Line → String
  | .comment indentation text =>
    if text.isEmpty then indentation ++ "///" else indentation ++ "/// " ++ text
  | .code text => text

/-- A line of code is its text. -/
@[simp] theorem Line.text_code (text : String) : (Line.code text).text = text :=
  rfl

/-- The text of a source; every line is ended. -/
def sourceText (lines : List Line) : String :=
  String.join (lines.map (·.text ++ "\n"))

/-- The lines of comments. -/
def commentLines (indentation : String) (comments : List String) : List Line :=
  comments.flatMap fun comment =>
    (Text.lines comment.toList).map fun line => .comment indentation (String.ofList line)

/-- A type that may be absent. -/
def optionOf (type : String) : String :=
  "Option<" ++ type ++ ">"

/-- A reference to something that configures a trait. -/
def configuratorOf (target : String) : String :=
  "&mut dyn FnMut(&mut dyn " ++ target ++ ")"

/-- The type of a value. -/
def valueType (scalars : Scalars) : TypeExpr → String
  | .value shape name list nullable =>
    let inner := match shape with
      | .scalar => scalars.typeOf name
      | .named => name
      | .entity => "Box<dyn " ++ name ++ ">"
    let listed := if list then "Vec<" ++ inner ++ ">" else inner
    if nullable then optionOf listed else listed
  | .configurator target => configuratorOf target

/-- Whether the type of a parameter says that it may be left out. -/
def isNullable : TypeExpr → Bool
  | .value _ _ _ nullable => nullable
  | .configurator _ => true

/-- The type of a parameter. -/
def parameterType (scalars : Scalars) (parameter : Parameter) : String :=
  match parameter.type with
  | .configurator target => optionOf (configuratorOf target)
  | .value _ _ _ _ =>
    let type := valueType scalars parameter.type
    if parameter.hasDefault && !isNullable parameter.type then optionOf type else type

/-- A parameter. -/
def parameterText (scalars : Scalars) (parameter : Parameter) : String :=
  identifier parameter.name ++ ": " ++ parameterType scalars parameter

/-- The declaration of a property. -/
def propertyText (scalars : Scalars) (property : Property) : String :=
  let type := valueType scalars property.type
  if property.isMutable then
    "fn set_" ++ snakeCase property.name ++ "(&mut self, value: " ++ type ++ ");"
  else "fn " ++ identifier property.name ++ "(&self) -> " ++ type ++ ";"

/-- The declaration of a method. -/
def methodText (scalars : Scalars) (method : Method) : String :=
  "fn " ++ identifier method.name ++ "(" ++
    ", ".intercalate ("&mut self" :: method.parameters.map (parameterText scalars)) ++ ");"

/-- Indentation of members. -/
def memberIndentation : String :=
  "    "

/-- The lines of a member. -/
def memberLines (scalars : Scalars) : Member → List Line
  | .property property =>
    commentLines memberIndentation property.comments ++
      [.code (memberIndentation ++ propertyText scalars property)]
  | .method method =>
    commentLines memberIndentation method.comments ++
      [.code (memberIndentation ++ methodText scalars method)]

/-- Blocks of lines with an empty line between two of them. -/
def separated : List (List Line) → List Line
  | [] => []
  | [block] => block
  | block :: rest => block ++ .code "" :: separated rest

/-- The first line of a trait, up to its body. -/
def traitHead (abstraction : Abstraction) : String :=
  "pub trait " ++ abstraction.name ++
    (if abstraction.supertypes.isEmpty then ""
      else ": " ++ " + ".intercalate abstraction.supertypes)

/-- The members of a trait that are not inherited. -/
def ownMembers (abstraction : Abstraction) : List Member :=
  abstraction.members.filter (!·.isOverride)

/-- The lines of a trait. -/
def traitLines (scalars : Scalars) (abstraction : Abstraction) : List Line :=
  commentLines "" abstraction.comments ++
    if (ownMembers abstraction).isEmpty then [.code (traitHead abstraction ++ " \x7b\x7d")]
    else
      .code (traitHead abstraction ++ " \x7b") ::
        separated ((ownMembers abstraction).map (memberLines scalars)) ++ [.code "\x7d"]

/-- The first line of every source. -/
def banner : Line :=
  .code "//! Generated by typed-query-gen - DO NOT EDIT"

/-- The lines that bring the names of the other modules into scope. -/
def scopeLines : List Line :=
  [.code "#[allow(unused_imports)]", .code "use super::*;"]

/-- The lines of the source of a node. -/
def planLines (scalars : Scalars) (plan : NodePlan) : List Line :=
  [ banner,
    .code ("//! Abstractions for " ++ plan.kind.word ++ " `" ++ plan.node ++ "`"),
    .code "" ] ++
    scopeLines ++ plan.abstractions.flatMap fun abstraction =>
      .code "" :: traitLines scalars abstraction

/-- The source of a node. -/
def render (scalars : Scalars) (plan : NodePlan) : String :=
  sourceText (planLines scalars plan)

end QuerySurface.Traits
