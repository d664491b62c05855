import QuerySurface.Files.Disk

/-!
# File trees

A file system in memory: directories and files under absolute paths. Paths are looked up
name by name, so every name but the last has to name a directory, and `..` leads back.
-/

namespace QuerySurface.Files

/-- What stands under a path. -/
inductive Entry where
  /-- A directory. -/
  | directory
  /-- A file. -/
  | file (bytes : ByteArray)
  deriving Inhabited

/-- A file tree. -/
structure Tree where
  /-- The entries below the root, with the names that lead to them. -/
  entries : List (List String × Entry)
  deriving Inhabited

namespace Tree

/-- A tree that holds nothing but its root. -/
def empty : Tree :=
  ⟨[]⟩

/-- What the names lead to from the root. -/
def at? (tree : Tree) (names : List String) : Option Entry :=
  if names.isEmpty then some .directory
  else (tree.entries.find? (fun entry => entry.1 == names)).map (·.2)

/-- Puts an entry in, in the place of an earlier one of the same names. -/
def put (tree : Tree) (names : List String) (entry : Entry) : Tree :=
  if tree.entries.any (·.1 == names) then
    ⟨tree.entries.map fun old => if old.1 == names then (names, entry) else old⟩
  else ⟨tree.entries ++ [(names, entry)]⟩

/-- Longest name that a directory can hold, in bytes. -/
def nameLimit : Nat := 255

/-- Follows names from a place in the tree. The last name need not exist; the result is where it
stands or would stand. -/
def follow (tree : Tree) (place : List String) : List String → Except Fault (List String)
  | [] => .ok place
  | name :: rest =>
    match tree.at? place with
    | none => .error .missing
    | some (.file _) => .error .notDirectory
    | some .directory =>
      if name = ".." then tree.follow place.dropLast rest
      else if nameLimit < name.utf8ByteSize then .error .nameTooLong
      else tree.follow (place ++ [name]) rest

/-- Where a path leads. A path that can only name a directory leads to one. -/
def locate (tree : Tree) (path : String) : Except Fault (List String) := do
  if path.toList.any (·.toNat == 0) then .error .zeroInName
  if path.isEmpty then .error .missing
  let place ← tree.follow [] (names path)
  if demandsDirectory path then
    match tree.at? place with
    | some .directory => return place
    | some (.file _) => .error .notDirectory
    | none => .error .missing
  else return place

/-- What a path names. -/
def entry? (tree : Tree) (path : String) : Option Entry :=
  match tree.locate path with
  | .ok place => tree.at? place
  | .error _ => none

/-- Whether a path names a directory. -/
def isDirectory (tree : Tree) (path : String) : Bool :=
  match tree.entry? path with
  | some .directory => true
  | _ => false

/-- Whether a path names a file. -/
def isFile (tree : Tree) (path : String) : Bool :=
  match tree.entry? path with
  | some (.file _) => true
  | _ => false

/-- The paths of the files below a directory. -/
def filesBelow (tree : Tree) (path : String) : List String :=
  match tree.locate path with
  | .ok place =>
    tree.entries.filterMap fun (names, entry) =>
      match entry, place.isPrefixOf? names with
      | .file _, some (name :: rest) => some (join path ("/".intercalate (name :: rest)))
      | _, _ => none
  | .error _ => []

/-- The bytes of a file. -/
def read (tree : Tree) (path : String) : Except Fault ByteArray :=
  match tree.locate path with
  | .error fault => .error fault
  | .ok place =>
    match tree.at? place with
    | some (.file bytes) => .ok bytes
    | some .directory => .error .isDirectory
    | none => .error .missing

/-- A path without the slashes at its end. -/
def withoutSlash (path : String) : String :=
  let text := (path.toList.reverse.dropWhile (· == '/')).reverse
  if text.isEmpty then path else String.ofList text

/-- Makes a directory. -/
def makeDirectory (tree : Tree) (path : String) : Except Fault Tree :=
  match tree.locate (withoutSlash path) with
  | .error fault => .error fault
  | .ok place =>
    match tree.at? place with
    | some _ => .error .exists
    | none => .ok (tree.put place .directory)

/-- Makes or replaces a file. -/
def write (tree : Tree) (path : String) (bytes : ByteArray) : Except Fault Tree :=
  match tree.locate path with
  | .error .missing =>
    if demandsDirectory path && (tree.locate (withoutSlash path)).isOk then .error .isDirectory
    else .error .missing
  | .error fault => .error fault
  | .ok place =>
    match tree.at? place with
    | some .directory => .error .isDirectory
    | _ => .ok (tree.put place (.file bytes))

/-- An operation that changes the tree if it succeeds. -/
def change (operation : Tree → Except Fault Tree) : StateM Tree (Except Fault Unit) := do
  match operation (← get) with
  | .ok tree =>
    set tree
    return .ok ()
  | .error fault => return .error fault

/-- A file tree as a disk. -/
def disk : Disk (StateM Tree) where
  isDirectory path := return (← get).isDirectory path
  isFile path := return (← get).isFile path
  filesBelow path := return (← get).filesBelow path
  read path := return (← get).read path
  makeDirectory path := change (·.makeDirectory path)
  write path bytes := change (·.write path bytes)

end Tree

end QuerySurface.Files
