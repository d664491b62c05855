import QuerySurface.Json.Printer
import QuerySurface.Schema.Kind

/-!
# Schema documents

A document lists types with their fields and arguments, and may name the roots. Types of
fields and arguments stand in it as written. Of a default value only its presence matters
to a schema, but it is kept as it is. Writing a document leaves out empty lists and absent
values, and reading fills them in.
-/

namespace QuerySurface.Schema

/-- An argument as written. -/
structure ArgumentDocument where
  /-- Its name. -/
  name : String
  /-- Its type in written notation. -/
  typeText : String
  /-- Its default value. -/
  default : Option Json.Value
  /-- Its comments. -/
  comments : List String
  deriving Repr, Inhabited

/-- A field as written. -/
structure FieldDocument where
  /-- Its name. -/
  name : String
  /-- Its type in written notation. -/
  typeText : String
  /-- Its comments. -/
  comments : List String
  /-- Its directives. -/
  directives : List String
  /-- Its arguments. -/
  arguments : List ArgumentDocument
  deriving Repr, Inhabited

/-- An enum value as written. -/
structure EnumValueDocument where
  /-- Its name. -/
  name : String
  /-- Its comments. -/
  comments : List String
  deriving Repr, Inhabited

/-- A type as written. -/
structure TypeDocument where
  /-- Its name. -/
  name : String
  /-- Its kind. -/
  kind : Kind
  /-- Its comments. -/
  comments : List String
  /-- Names of its interfaces. -/
  implements : List String
  /-- Names of its union members. -/
  members : List String
  /-- Its enum values. -/
  values : List EnumValueDocument
  /-- Its fields. -/
  fields : List FieldDocument
  deriving Repr, Inhabited

/-- Roots as written. -/
structure RootsDocument where
  /-- The query root. -/
  query : Option String
  /-- The mutation root. -/
  mutation : Option String
  /-- The subscription root. -/
  subscription : Option String
  deriving Repr, Inhabited

/-- A schema document. -/
structure Document where
  /-- Its roots. -/
  roots : RootsDocument
  /-- Its types. -/
  types : List TypeDocument
  deriving Repr, Inhabited

/-- A key with a list, left out if the list is empty. -/
def listMember (key : String) (items : List Json.Value) : List (String × Json.Value) :=
  if items.isEmpty then [] else [(key, .array items)]

/-- A key with texts, left out if there are none. -/
def textsMember (key : String) (texts : List String) : List (String × Json.Value) :=
  listMember key (texts.map .text)

/-- A key with a value, left out if there is none. -/
def optionalMember (key : String) (value : Option Json.Value) : List (String × Json.Value) :=
  value.elim [] fun value => [(key, value)]

/-- Reads a list of texts. -/
def textsReader : Json.Reader (List String) :=
  Json.Reader.list Json.Reader.text

namespace ArgumentDocument

/-- An argument as data. -/
def toValue (argument : ArgumentDocument) : Json.Value :=
  .object
    ([("name", .text argument.name), ("type", .text argument.typeText)] ++
      optionalMember "default" argument.default ++ textsMember "comments" argument.comments)

/-- Reads an argument. -/
def reader : Json.Reader ArgumentDocument :=
  Json.Reader.record "ArgumentDoc"
    [ .must "name" Json.Reader.text fun name argument => { argument with name },
      .must "type" Json.Reader.text fun typeText argument => { argument with typeText },
      .may "default" (Json.Reader.optional Json.Reader.value)
        fun default argument => { argument with default },
      .may "comments" textsReader fun comments argument => { argument with comments } ]
    ⟨"", "", none, []⟩

end ArgumentDocument

namespace FieldDocument

/-- A field as data. -/
def toValue (field : FieldDocument) : Json.Value :=
  .object
    ([("name", .text field.name), ("type", .text field.typeText)] ++
      textsMember "comments" field.comments ++ textsMember "directives" field.directives ++
      listMember "arguments" (field.arguments.map ArgumentDocument.toValue))

/-- Reads a field. -/
def reader : Json.Reader FieldDocument :=
  Json.Reader.record "FieldDoc"
    [ .must "name" Json.Reader.text fun name field => { field with name },
      .must "type" Json.Reader.text fun typeText field => { field with typeText },
      .may "comments" textsReader fun comments field => { field with comments },
      .may "directives" textsReader fun directives field => { field with directives },
      .may "arguments" (Json.Reader.list ArgumentDocument.reader)
        fun arguments field => { field with arguments } ]
    ⟨"", "", [], [], []⟩

end FieldDocument

namespace EnumValueDocument

/-- An enum value as data. -/
def toValue (value : EnumValueDocument) : Json.Value :=
  .object ([("name", .text value.name)] ++ textsMember "comments" value.comments)

/-- Reads an enum value. -/
def reader : Json.Reader EnumValueDocument :=
  Json.Reader.record "EnumValueDoc"
    [ .must "name" Json.Reader.text fun name value => { value with name },
      .may "comments" textsReader fun comments value => { value with comments } ]
    ⟨"", []⟩

end EnumValueDocument

namespace TypeDocument

/-- A type as data. -/
def toValue (type : TypeDocument) : Json.Value :=
  .object
    ([("name", .text type.name), ("kind", .text type.kind.documentWord)] ++
      textsMember "comments" type.comments ++ textsMember "implements" type.implements ++
      textsMember "members" type.members ++
      listMember "values" (type.values.map EnumValueDocument.toValue) ++
      listMember "fields" (type.fields.map FieldDocument.toValue))

/-- Reads a type. -/
def reader : Json.Reader TypeDocument :=
  Json.Reader.record "TypeDoc"
    [ .must "name" Json.Reader.text fun name type => { type with name },
      .must "kind" Kind.reader fun kind type => { type with kind },
      .may "comments" textsReader fun comments type => { type with comments },
      .may "implements" textsReader fun implements type => { type with implements },
      .may "members" textsReader fun members type => { type with members },
      .may "values" (Json.Reader.list EnumValueDocument.reader)
        fun values type => { type with values },
      .may "fields" (Json.Reader.list FieldDocument.reader)
        fun fields type => { type with fields } ]
    ⟨"", .scalar, [], [], [], [], []⟩

end TypeDocument

namespace RootsDocument

/-- No roots. -/
def none : RootsDocument :=
  ⟨.none, .none, .none⟩

/-- Roots as data. -/
def toValue (roots : RootsDocument) : Json.Value :=
  .object
    (optionalMember "query" (roots.query.map .text) ++
      optionalMember "mutation" (roots.mutation.map .text) ++
      optionalMember "subscription" (roots.subscription.map .text))

/-- Reads roots. -/
def reader : Json.Reader RootsDocument :=
  Json.Reader.record "RootsDoc"
    [ .may "query" (Json.Reader.optional Json.Reader.text)
        fun query roots => { roots with query },
      .may "mutation" (Json.Reader.optional Json.Reader.text)
        fun mutation roots => { roots with mutation },
      .may "subscription" (Json.Reader.optional Json.Reader.text)
        fun subscription roots => { roots with subscription } ]
    none

end RootsDocument

namespace Document

/-- A document as data. -/
def toValue (document : Document) : Json.Value :=
  .object
    [ ("schema", document.roots.toValue),
      ("types", .array (document.types.map TypeDocument.toValue)) ]

/-- Reads a document. -/
def reader : Json.Reader Document :=
  Json.Reader.record "SchemaDocument"
    [ .may "schema" RootsDocument.reader fun roots document => { document with roots },
      .may "types" (Json.Reader.list TypeDocument.reader)
        fun types document => { document with types } ]
    ⟨.none, []⟩

/-- Reads a document from its text. -/
def parse (source : String) : Except Json.Problem Document :=
  Json.Reader.decode reader source

end Document

end QuerySurface.Schema
