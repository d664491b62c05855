import QuerySurface.Json.Printer
import QuerySurface.Plan.Basic

/-!
# Plans as data

Plans written as values of the data format, and read back. Empty comments and an absent field
are left out. Members and types say first which form they have.
-/

namespace QuerySurface.Plan

open Json (Value)

/-- A key with comments, left out if there are none. -/
def commentsMember (comments : List String) : List (String × Value) :=
  if comments.isEmpty then [] else [("comments", .texts comments)]

/-- The word for a shape. -/
def Shape.word : Shape → String
  | .scalar => "scalar"
  | .named => "named"
  | .entity => "entity"

/-- The shape of a word. -/
def Shape.ofWord? (word : String) : Option Shape :=
  [Shape.scalar, .named, .entity].find? (fun shape => shape.word == word)

/-- A type as data. -/
def TypeExpr.toValue : TypeExpr → Value
  | .value shape name list nullable =>
    .object
      [ ("shape", .text shape.word), ("name", .text name), ("list", .flag list),
        ("nullable", .flag nullable) ]
  | .configurator target => .object [("shape", .text "configurator"), ("target", .text target)]

/-- A parameter as data. -/
def Parameter.toValue (parameter : Parameter) : Value :=
  .object
    ([ ("name", .text parameter.name), ("type", parameter.type.toValue),
       ("has_default", .flag parameter.hasDefault) ] ++ commentsMember parameter.comments)

/-- A member as data. -/
def Member.toValue : Member → Value
  | .property it =>
    .object
      ([ ("member", .text "property"), ("name", .text it.name), ("type", it.type.toValue),
         ("is_override", .flag it.isOverride), ("is_mutable", .flag it.isMutable) ] ++
        commentsMember it.comments)
  | .method it =>
    .object
      ([ ("member", .text "method"), ("name", .text it.name),
         ("parameters", .array (it.parameters.map Parameter.toValue)),
         ("is_abstract", .flag it.isAbstract), ("is_override", .flag it.isOverride) ] ++
        commentsMember it.comments)

/-- An abstraction as data. -/
def Abstraction.toValue (abstraction : Abstraction) : Value :=
  .object
    ([ ("kind", .text abstraction.family.word), ("name", .text abstraction.name),
       ("supertypes", .texts abstraction.supertypes) ] ++
      commentsMember abstraction.comments ++
      (abstraction.field.map fun field => ("field", Value.text field)).toList ++
      [("members", .array (abstraction.members.map Member.toValue))])

/-- A plan as data. -/
def NodePlan.toValue (plan : NodePlan) : Value :=
  .object
    [ ("node", .text plan.node), ("kind", .text plan.kind.documentWord),
      ("abstractions", .array (plan.abstractions.map Abstraction.toValue)) ]

/-- Plans as data. -/
def plansValue (plans : List NodePlan) : Value :=
  .array (plans.map NodePlan.toValue)

/-- A text of an object. -/
def textAt? (value : Value) (key : String) : Option String :=
  match value.get? key with
  | some (.text text) => some text
  | _ => none

/-- A truth value of an object; absent is false. -/
def flagAt (value : Value) (key : String) : Bool :=
  match value.get? key with
  | some (.flag flag) => flag
  | _ => false

/-- The elements of a list of an object; absent is empty. -/
def itemsAt (value : Value) (key : String) : List Value :=
  match value.get? key with
  | some (.array items) => items
  | _ => []

/-- A text. -/
def textOf? : Value → Option String
  | .text text => some text
  | _ => none

/-- The texts of a list of an object; absent is empty. -/
def textsAt? (value : Value) (key : String) : Option (List String) :=
  (itemsAt value key).mapM textOf?

/-- Reads a type back. -/
def TypeExpr.ofValue? (value : Value) : Option TypeExpr := do
  let word ← textAt? value "shape"
  if word = "configurator" then
    let target ← textAt? value "target"
    return .configurator target
  else
    let shape ← Shape.ofWord? word
    let name ← textAt? value "name"
    return .value shape name (flagAt value "list") (flagAt value "nullable")

/-- Reads a parameter back. -/
def Parameter.ofValue? (value : Value) : Option Parameter := do
  let name ← textAt? value "name"
  let type ← (value.get? "type").bind TypeExpr.ofValue?
  let comments ← textsAt? value "comments"
  return ⟨name, type, flagAt value "has_default", comments⟩

/-- Reads a member back. -/
def Member.ofValue? (value : Value) : Option Member := do
  let word ← textAt? value "member"
  let name ← textAt? value "name"
  let comments ← textsAt? value "comments"
  if word = "property" then
    let type ← (value.get? "type").bind TypeExpr.ofValue?
    return .property ⟨name, type, flagAt value "is_override", flagAt value "is_mutable", comments⟩
  else if word = "method" then
    let parameters ← (itemsAt value "parameters").mapM Parameter.ofValue?
    return .method
      ⟨name, parameters, flagAt value "is_abstract", flagAt value "is_override", comments⟩
  else none

/-- Reads an abstraction back. -/
def Abstraction.ofValue? (value : Value) : Option Abstraction := do
  let family ← (textAt? value "kind").bind Family.ofWord?
  let name ← textAt? value "name"
  let supertypes ← textsAt? value "supertypes"
  let comments ← textsAt? value "comments"
  let members ← (itemsAt value "members").mapM Member.ofValue?
  return ⟨family, name, supertypes, comments, textAt? value "field", members⟩

/-- Reads a plan back. -/
def NodePlan.ofValue? (value : Value) : Option NodePlan := do
  let node ← textAt? value "node"
  let kind ← (textAt? value "kind").bind Schema.Kind.ofDocumentWord?
  let abstractions ← (itemsAt value "abstractions").mapM Abstraction.ofValue?
  return ⟨node, kind, abstractions⟩

/-- Reads plans back. -/
def plansOfValue? : Value → Option (List NodePlan)
  | .array items => items.mapM NodePlan.ofValue?
  | _ => none

end QuerySurface.Plan
