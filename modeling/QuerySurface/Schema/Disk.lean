import QuerySurface.Files.Disk
import QuerySurface.Schema.Loading

/-!
# Documents on disk

A path names one document, or a directory of which every file below with a wanted extension
is a document. The files of a directory are taken in the order of their paths, whatever the
order in which they are listed.
-/

namespace QuerySurface.Schema

open Files (Disk)

variable {m : Type → Type} [Monad m]

/-- The files of a listing that are documents, in order. -/
def documentFiles (extensions : List String) (listing : List String) : List String :=
  Files.sorted (listing.filter fun path => (Files.extension? path).any extensions.contains)

/-- The document of a text that was read from a path. -/
def documentOf (path : String) : Except Files.Fault String → Outcome Document
  | .error fault => .error (.file fault)
  | .ok text =>
    match Document.parse text with
    | .ok document => .ok document
    | .error problem =>
      .error (.schema path ("failed to parse document: " ++ Failure.problemText problem))

/-- Reads documents in order, up to the first failure. -/
def readDocuments (disk : Disk m) : List String → m (Outcome (List Document))
  | [] => return .ok []
  | path :: rest => do
    match documentOf path (← disk.readText path) with
    | .error failure => return .error failure
    | .ok document =>
      match ← readDocuments disk rest with
      | .error failure => return .error failure
      | .ok documents => return .ok (document :: documents)

/-- Loads the documents that a path names. -/
def Graph.load (disk : Disk m) (id : GraphId) (settings : LoadSettings) (path : String) :
    m (Outcome Graph) := do
  let files ←
    if ← disk.isDirectory path then
      pure (documentFiles settings.extensions (← disk.filesBelow path))
    else pure [path]
  if files.isEmpty then return .error (.schema path "no schema documents found")
  match ← readDocuments disk files with
  | .error failure => return .error failure
  | .ok documents => return Graph.ofDocuments id settings documents

end QuerySurface.Schema
