import QuerySurface.Toml.Value

/-!
# Sections

A text in this format fills nested tables from two sides: headers open tables, and keys with
points in them make tables on the way. How a table came to be decides how it may be
extended: one that was opened by its own header is not opened again and not extended by a
key from outside; one that only stands in the path of a header may still be opened; one that
a key made may be extended by other keys of the same section only.
-/

namespace QuerySurface.Toml

/-- How a table came to be. -/
inductive Origin where
  /-- By a header of its own. -/
  | opened
  /-- By standing in the path of a header. -/
  | passed
  /-- By standing in the path of a key. -/
  | keyed
  deriving DecidableEq, Repr, Inhabited

/-- What stands under a key while a text is being read. -/
inductive Entry where
  /-- A value, which is complete. -/
  | value (value : Value)
  /-- A table. -/
  | table (origin : Origin) (entries : List (String × Entry))
  /-- A list of tables, of which the last is being filled. -/
  | tables (elements : List (List (String × Entry)))
  deriving Repr, Inhabited

/-- The entries of a table. -/
abbrev Entries := List (String × Entry)

namespace Entries

/-- The entry of a key. -/
def get? (key : String) (entries : Entries) : Option Entry :=
  (entries.find? (fun entry => entry.1 == key)).map (·.2)

/-- Sets the entry of a key. -/
def set (key : String) (entry : Entry) : Entries → Entries
  | [] => [(key, entry)]
  | (other, old) :: rest =>
    if other = key then (key, entry) :: rest else (other, old) :: set key entry rest

/-- Changes the table that a path leads to. Missing tables on the way are made, with the given
origin. A path of a key does not lead through a table that was opened by its own header. -/
def at? (made : Origin) (change : Origin → Entries → Option Entries) :
    (path : List String) → Origin → Entries → Option Entries
  | [], origin, entries => change origin entries
  | key :: path, _, entries =>
    match get? key entries with
    | none => do
      let inner ← at? made change path made []
      return set key (.table made inner) entries
    | some (.value _) => none
    | some (.tables elements) => do
      let last ← elements.getLast?
      let inner ← at? made change path .opened last
      return set key (.tables (elements.dropLast ++ [inner])) entries
    | some (.table origin entriesOf) => do
      if made = .keyed ∧ origin = .opened then none
      let inner ← at? made change path origin entriesOf
      return set key (.table origin inner) entries

/-- Opens a table in a table. -/
def openTable (key : String) (entries : Entries) : Option Entries :=
  match get? key entries with
  | none => some (set key (.table .opened []) entries)
  | some (.table .passed inner) => some (set key (.table .opened inner) entries)
  | some _ => none

/-- Opens one more table of a list in a table. -/
def openElement (key : String) (entries : Entries) : Option Entries :=
  match get? key entries with
  | none => some (set key (.tables [[]]) entries)
  | some (.tables elements) => some (set key (.tables (elements ++ [[]])) entries)
  | some _ => none

/-- Gives a key of a table a value, unless it has one. A key without points does not go into a
table that a key made, and one with points only into such a table. -/
def assign (pointed : Bool) (key : String) (value : Value) (origin : Origin) (entries : Entries) :
    Option Entries :=
  if pointed != (origin == .keyed) then none
  else
    match get? key entries with
    | none => some (entries ++ [(key, .value value)])
    | some _ => none

/-- Gives the key at the end of a path a value. -/
def assignPath (path : List String) (value : Value) (origin : Origin) (entries : Entries) :
    Option Entries :=
  match path.getLast? with
  | none => none
  | some key =>
    let above := path.dropLast
    at? .keyed (assign (!above.isEmpty) key value) above origin entries

end Entries

mutual

/-- The value of an entry. -/
def Entry.toValue : Entry → Value
  | .value value => value
  | .table _ entries => .table (entriesToValues entries)
  | .tables elements => .array (elementsToValues elements)

/-- The values of entries. -/
def entriesToValues : List (String × Entry) → List (String × Value)
  | [] => []
  | (key, entry) :: rest => (key, entry.toValue) :: entriesToValues rest

/-- The values of tables. -/
def elementsToValues : List (List (String × Entry)) → List Value
  | [] => []
  | entries :: rest => .table (entriesToValues entries) :: elementsToValues rest

end

/-- Tables being filled, and the path of the table that was opened last. -/
structure Sections where
  /-- The entries of the outermost table. -/
  root : Entries
  /-- The path of the section. -/
  path : List String

namespace Sections

/-- Nothing filled yet. -/
def empty : Sections :=
  ⟨[], []⟩

/-- Opens a section by one of two kinds of header. -/
def openBy (opening : String → Entries → Option Entries) (path : List String)
    (sections : Sections) : Option Sections := do
  let key ← path.getLast?
  let root ←
    Entries.at? .passed (fun _ entries => opening key entries) path.dropLast .opened sections.root
  return ⟨root, path⟩

/-- Gives a key of the section a value. -/
def assign (path : List String) (value : Value) (sections : Sections) : Option Sections := do
  let root ←
    Entries.at? .passed (Entries.assignPath path value) sections.path .opened sections.root
  return { sections with root }

end Sections

end QuerySurface.Toml
