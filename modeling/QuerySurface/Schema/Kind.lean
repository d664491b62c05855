import QuerySurface.Json.Reader

/-!
# Kinds of declared types

The eight kinds, their two spellings, and the three questions that the rest of the library
asks of a kind.
-/

namespace QuerySurface.Schema

/-- What a declared type is. -/
inductive Kind where
  /-- A leaf value. -/
  | scalar
  /-- The entry point of queries. -/
  | query
  /-- The entry point of mutations. -/
  | mutation
  /-- A type with fields. -/
  | object
  /-- Fields that objects share. -/
  | interface
  /-- One of several objects. -/
  | union
  /-- One of several words. -/
  | enum
  /-- A composite argument. -/
  | input
  deriving DecidableEq, Repr, Inhabited

namespace Kind

/-- Every kind, in declaration order. -/
def all : List Kind :=
  [.scalar, .query, .mutation, .object, .interface, .union, .enum, .input]

/-- The word for a kind in messages. -/
def word : Kind → String
  | .scalar => "scalar"
  | .query => "query"
  | .mutation => "mutation"
  | .object => "object"
  | .interface => "interface"
  | .union => "union"
  | .enum => "enum"
  | .input => "input"

/-- The word for a kind in documents. -/
def documentWord : Kind → String
  | .scalar => "SCALAR"
  | .query => "QUERY"
  | .mutation => "MUTATION"
  | .object => "OBJECT"
  | .interface => "INTERFACE"
  | .union => "UNION"
  | .enum => "ENUM"
  | .input => "INPUT"

/-- Reads the word of a document. -/
def reader : Json.Reader Kind :=
  Json.Reader.choice (all.map fun kind => (kind.documentWord, kind))

/-- The kind that a word of a document names. -/
def ofDocumentWord? (word : String) : Option Kind :=
  all.find? (fun kind => kind.documentWord == word)

/-- Whether a value of this kind is selected through a nested projection. -/
def hasProjection : Kind → Bool
  | .object | .interface | .union => true
  | _ => false

/-- Whether a value of this kind is selected per concrete object. -/
def isPolymorphic : Kind → Bool
  | .interface | .union => true
  | _ => false

/-- Whether nodes of this kind have an entity. -/
def hasEntity : Kind → Bool
  | .query | .mutation | .object | .interface | .union => true
  | _ => false

end Kind

end QuerySurface.Schema
