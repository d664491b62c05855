import QuerySurface.Files.Fault
import QuerySurface.Files.Path
import QuerySurface.Files.TextFile

/-!
# Disks

What the library asks of a file system, as operations in some monad, and the compound
operations made of them. The same definitions run on the file system of the machine and on
file trees in memory.
-/

namespace QuerySurface.Files

/-- A file system. -/
structure Disk (m : Type → Type) where
  /-- Whether a path names a directory. -/
  isDirectory : String → m Bool
  /-- Whether a path names a file. -/
  isFile : String → m Bool
  /-- The paths of all files below a directory, in any order. -/
  filesBelow : String → m (List String)
  /-- The bytes of a file. -/
  read : String → m (Except Fault ByteArray)
  /-- Makes a directory inside an existing one. -/
  makeDirectory : String → m (Except Fault Unit)
  /-- Makes or replaces a file. -/
  write : String → ByteArray → m (Except Fault Unit)

namespace Disk

variable {m : Type → Type} [Monad m]

/-- The text of a file. -/
def readText (disk : Disk m) (path : String) : m (Except Fault String) := do
  match ← disk.read path with
  | .ok bytes => return (String.fromUTF8? bytes).elim (.error .notText) .ok
  | .error fault => return .error fault

/-- Makes a text file, or replaces it. -/
def writeText (disk : Disk m) (path text : String) : m (Except Fault Unit) :=
  disk.write path text.toUTF8

/-- Makes a directory of which the ones above may be missing too; the list starts with the
directory and goes on with those above. One that is there already is fine. -/
def makeFrom (disk : Disk m) : List String → m (Except Fault Unit)
  | [] => return .ok ()
  | path :: above => do
    if path.isEmpty then return .ok ()
    match ← disk.makeDirectory path with
    | .ok () => return .ok ()
    | .error .missing =>
      match ← disk.makeFrom above with
      | .error fault => return .error fault
      | .ok () =>
        match ← disk.makeDirectory path with
        | .ok () => return .ok ()
        | .error fault => return if ← disk.isDirectory path then .ok () else .error fault
    | .error fault => return if ← disk.isDirectory path then .ok () else .error fault

/-- Makes a directory and those above it. -/
def makeDirectories (disk : Disk m) (path : String) : m (Except Fault Unit) :=
  disk.makeFrom (path :: (withAncestors path).drop 1)

/-- Writes files below a directory, in order, up to the first fault. -/
def writeEach (disk : Disk m) (directory : String) : List TextFile → m (Except Fault Unit)
  | [] => return .ok ()
  | file :: rest => do
    match ← disk.writeText (join directory file.path) file.contents with
    | .ok () => disk.writeEach directory rest
    | .error fault => return .error fault

/-- Writes files below a directory, which is made if it is missing. -/
def writeFiles (disk : Disk m) (directory : String) (files : List TextFile) :
    m (Except Fault Unit) := do
  match ← disk.makeDirectories directory with
  | .ok () => disk.writeEach directory files
  | .error fault => return .error fault

end Disk

end QuerySurface.Files
