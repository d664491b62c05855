import QuerySurface.Text.Blank

/-!
# Paths

Paths are texts with slashes. This module joins them, takes them apart, and orders them
name by name, so that `a/z` comes before `a-b`.
-/

namespace QuerySurface.Files

/-- Whether a path starts at the root. -/
def isAbsolute (path : String) : Bool :=
  path.toList.head? == some '/'

/-- A path seen from a directory. An absolute path stays as it is. -/
def join (base path : String) : String :=
  if isAbsolute path then path
  else if base.isEmpty || base.toList.getLast? == some '/' then base ++ path
  else base ++ "/" ++ path

/-- The names of a path, in order; empty names and the name `.` say nothing. -/
def names (path : String) : List String :=
  ((Text.splitOn '/' path.toList).map String.ofList).filter fun name => name != "" && name != "."

/-- Whether a path can only name a directory. -/
def demandsDirectory (path : String) : Bool :=
  match (Text.splitOn '/' path.toList).getLast? with
  | some last => last == [] || last == ['.']
  | none => false

/-- What stands behind the last point of a name that does not start with it. -/
def extension? (path : String) : Option String :=
  match (names path).getLast? with
  | none => none
  | some name =>
    if name = ".." then none
    else
      match (Text.splitOn '.' name.toList).reverse with
      | last :: front@(_ :: _) =>
        if front.reverse == [[]] then none else some (String.ofList last)
      | _ => none

/-- A path with an extension behind its last name; none if it has no last name. -/
def extended? (path extension : String) : Option String :=
  match (names path).getLast? with
  | none => none
  | some last =>
    if last = ".." then none
    else
      let parts := (Text.splitOn '/' path.toList).reverse.dropWhile fun part =>
        part == [] || part == ['.']
      some (String.ofList (List.intercalate ['/'] parts.reverse) ++ "." ++ extension)

/-- Whether one path comes before another or is equal to it, name by name. -/
def namesBefore : List String → List String → Bool
  | [], _ => true
  | _ :: _, [] => false
  | a :: as, b :: bs => if a = b then namesBefore as bs else a < b

/-- Paths in order. -/
def sorted (paths : List String) : List String :=
  paths.mergeSort fun a b => namesBefore (names a) (names b)

/-- A path with the directories above it, nearest first. -/
def withAncestors (path : String) : List String :=
  let root := if isAbsolute path then "/" else ""
  let rec above : List String → List String
    | [] => [root]
    | name :: rest => (root ++ "/".intercalate (name :: rest).reverse) :: above rest
  above (names path).reverse

end QuerySurface.Files
