import QuerySurface.Schema.Graph

/-!
# Declarations

A schema is declared step by step. The steps are data, so a sequence of declarations can be
looked at, cut and rearranged before anything is built from it.
-/

namespace QuerySurface.Schema

/-- A step that fills a field. -/
inductive FieldStep where
  /-- Adds a comment. -/
  | comment (text : String)
  /-- Marks the field as primary key, or takes the mark off. -/
  | primaryKey (value : Bool)
  /-- Marks the field as selection, or takes the mark off. -/
  | selection (value : Bool)
  /-- Marks the field as resolved, or takes the mark off. -/
  | resolve (value : Bool)
  /-- Declares an argument. -/
  | argument (name : String) (type : TypeRef) (hasDefault : Bool) (comments : List String)
  deriving DecidableEq, Repr

/-- A step that fills a node. -/
inductive NodeStep where
  /-- Declares that an interface is implemented. -/
  | implements (interface : String)
  /-- Declares a union member. -/
  | member (object : String)
  /-- Adds a comment. -/
  | comment (text : String)
  /-- Declares an enum value. -/
  | enumValue (name : String) (comments : List String)
  /-- Declares a field. -/
  | field (name : String) (type : TypeRef) (required hasDefault : Bool) (body : List FieldStep)
  deriving DecidableEq, Repr

/-- A step that fills a schema. -/
inductive SchemaStep where
  /-- Declares a node. -/
  | node (name : String) (kind : Kind) (body : List NodeStep)
  /-- Names the query root. -/
  | query (name : String)
  /-- Names the mutation root. -/
  | mutation (name : String)
  /-- Names the subscription root. -/
  | subscription (name : String)
  deriving DecidableEq, Repr

end QuerySurface.Schema
