import QuerySurface.Text.Blank
import QuerySurface.Text.Identifier
import QuerySurface.Json.Reader

/-!
# Type references

A field or argument refers to a type by its name, and says whether the value is a list and
whether it may be absent. The written notation is `Name`, `[Name]`, and either with a
final `!` for a value that is always present. An inner `!` is read and not kept.
-/

namespace QuerySurface.Schema

/-- A reference to a declared type. -/
structure TypeRef where
  /-- Name of the type. -/
  node : String
  /-- Whether the value is a list. -/
  list : Bool
  /-- Whether the value may be absent. -/
  nullable : Bool
  deriving DecidableEq, Repr, Inhabited

namespace TypeRef

/-- Takes the final mark of presence off a notation: what is in front of it, and whether the
value may be absent. -/
def splitMark (text : List Char) : List Char × Bool :=
  match Text.dropLast? '!' text with
  | some rest => (Text.trimEnd rest, false)
  | none => (text, true)

/-- Takes the brackets off a notation: what they enclose, and whether there are any. Brackets
that are not closed make no notation. -/
def splitBrackets (text : List Char) : Option (List Char × Bool) :=
  match text with
  | '[' :: rest => (Text.dropLast? ']' rest).map fun inner => (Text.trim inner, true)
  | _ => some (text, false)

/-- Takes the mark of presence off an element. -/
def dropMark (text : List Char) : List Char :=
  Text.trim ((Text.dropLast? '!' text).getD text)

/-- Reads a notation given as characters. -/
def parseChars (text : List Char) : Option TypeRef :=
  let (body, nullable) := splitMark (Text.trim text)
  match splitBrackets body with
  | none => none
  | some (inner, list) =>
    let name := dropMark inner
    if Text.isIdentifier name then some ⟨String.ofList name, list, nullable⟩ else none

/-- Reads a notation. -/
def parse (text : String) : Option TypeRef :=
  parseChars text.toList

/-- The notation of a reference. -/
def written (ref : TypeRef) : String :=
  (if ref.list then "[" ++ ref.node ++ "]" else ref.node) ++ (if ref.nullable then "" else "!")

/-- Reads a reference that is given by its three parts. -/
def reader : Json.Reader TypeRef :=
  Json.Reader.record "TypeRef"
    [ .must "node" Json.Reader.text fun node ref => { ref with node },
      .must "list" Json.Reader.flag fun list ref => { ref with list },
      .must "nullable" Json.Reader.flag fun nullable ref => { ref with nullable } ]
    ⟨"", false, false⟩

end TypeRef

end QuerySurface.Schema
