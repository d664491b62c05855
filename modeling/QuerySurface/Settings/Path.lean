import QuerySurface.Decimal.Nearest
import QuerySurface.Settings.Raw
import QuerySurface.Text.Case

/-!
# Merging settings

Settings are put into a tree at paths. What stands in the way and is no table or list gives
way to one. A table is merged into the table that is there, entry by entry, and anything else
replaces what is there. Names of what is put in are lowered; names on the way to it are
taken as they are written.
-/

namespace QuerySurface.Settings

/-- A step of a path. -/
inductive Step where
  /-- To the entry of a name. -/
  | entry (name : String)
  /-- To an element of a list; below zero it is counted from the end. -/
  | element (index : Int)
  deriving DecidableEq, Repr

/-- The characters of names in paths. -/
def isNameChar (c : Char) : Bool :=
  c.isAlphanum || c == ' ' || c == '_' || c == '-'

/-- The index between brackets, with blanks around it. -/
def index? (text : List Char) : Option Int :=
  let isSpace := fun c => c == ' ' || c == '\t'
  let inner := ((text.dropWhile isSpace).reverse.dropWhile isSpace).reverse
  if inner.head? == some '+' then none
  else (Decimal.integer? inner).filter Decimal.fitsWord

/-- The steps behind a first name: names with a point in front, and indices in brackets. The
text is read at most `count` steps far. -/
def stepsBehind : (count : Nat) → List Char → Option (List Step)
  | _, [] => some []
  | 0, _ :: _ => none
  | count + 1, '.' :: rest => do
    let name := rest.takeWhile isNameChar
    if name.isEmpty then none
    let steps ← stepsBehind count (rest.dropWhile isNameChar)
    return .entry (String.ofList name) :: steps
  | count + 1, '[' :: rest => do
    match rest.dropWhile (· != ']') with
    | ']' :: behind =>
      let index ← index? (rest.takeWhile (· != ']'))
      let steps ← stepsBehind count behind
      return .element index :: steps
    | _ => none
  | _ + 1, _ :: _ => none

/-- The path that a key writes. A key that writes none is itself the name of an entry. -/
def pathOf (key : String) : List Step :=
  let text := key.toList
  let name := text.takeWhile isNameChar
  match name, stepsBehind text.length (text.dropWhile isNameChar) with
  | _ :: _, some steps => .entry (String.ofList name) :: steps
  | _, _ => [.entry key]

namespace Raw

/-- Changes the entry of a name; a missing one starts as `absent`. -/
def changeEntry (absent : Raw) (change : Raw → Raw) (name : String) :
    List (String × Raw) → List (String × Raw)
  | [] => [(name, change absent)]
  | (other, old) :: rest =>
    if other = name then (name, change old) :: rest
    else (other, old) :: changeEntry absent change name rest

/-- Changes an element of a list, which is made long enough first. An index that leads out in
front changes nothing. -/
def changeElement (change : Raw → Raw) (index : Int) (items : List Raw) : List Raw :=
  let place := if index < 0 then items.length + index else index
  if place < 0 then items
  else
    let items := items ++ List.replicate (place.toNat + 1 - items.length) .nothing
    items.modify place.toNat change

mutual

/-- Puts a setting under a name into a table. -/
def put (name : String) (root : Raw) : Raw → Raw
  | .table entries =>
    .table (changeEntry (.table []) (putAll entries) (Text.lowercase name) root.entries)
  | value => .table (changeEntry .nothing (fun _ => value) (Text.lowercase name) root.entries)

/-- Puts entries into a table, one after the other. -/
def putAll : List (String × Raw) → Raw → Raw
  | [], root => root
  | (name, value) :: rest, root => putAll rest (put name root value)

end

/-- Puts a setting at a path. -/
def putAt (value : Raw) : (path : List Step) → Raw → Raw
  | [], _ => value
  | [.entry name], root => put name root value
  | .entry name :: path, root => .table (changeEntry .nothing (putAt value path) name root.entries)
  | .element index :: path, root => .list (changeElement (putAt value path) index root.elements)

/-- Puts the entries of a source into a tree. Their keys are read as paths. -/
def merge (root : Raw) (source : List (String × Raw)) : Raw :=
  source.foldl (fun root (key, value) => putAt value (pathOf key) root) root

end Raw

end QuerySurface.Settings
