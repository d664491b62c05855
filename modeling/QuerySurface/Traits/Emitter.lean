import QuerySurface.Files.TextFile
import QuerySurface.Plan.Backend
import QuerySurface.Traits.Render

/-!
# Sources of all nodes

One file for each node that has abstractions, and a root that declares and re-exports their
modules. Two nodes whose module names are equal cannot both have a file: the second is a
failure, and leaves what was emitted before as it is.
-/

namespace QuerySurface.Traits

open Plan (NodePlan Backend)
open Files (TextFile)
open Layout (Scalars)

/-- What was emitted so far. -/
structure Emitted where
  /-- The files, in order. -/
  files : List TextFile
  /-- The names of their modules. -/
  modules : List String
  deriving DecidableEq, Repr, Inhabited

namespace Emitted

/-- Nothing emitted. -/
def none : Emitted :=
  ⟨[], []⟩

/-- The module of a plan. -/
def moduleOf (plan : NodePlan) : String :=
  snakeCase plan.node

/-- The file of a plan. -/
def fileOf (scalars : Scalars) (plan : NodePlan) : TextFile :=
  ⟨moduleOf plan ++ ".rs", render scalars plan⟩

/-- Emits a plan. A plan without abstractions has no file. -/
def emit (scalars : Scalars) (emitted : Emitted) (plan : NodePlan) : Outcome Emitted :=
  if plan.isEmpty then .ok emitted
  else if emitted.modules.contains (moduleOf plan) then
    .error (.generation plan.node
      ("module name '" ++ moduleOf plan ++ "' is already taken by another node"))
  else
    .ok
      { files := emitted.files ++ [fileOf scalars plan]
        modules := emitted.modules ++ [moduleOf plan] }

/-- The lines of the root of some modules. -/
def rootLines (modules : List String) : List Line :=
  [ banner,
    .code "//!",
    .code "//! Enum and input types are referenced by schema name and must be in",
    .code "//! scope of the parent module.",
    .code "" ] ++
    scopeLines ++ [.code ""] ++
    modules.map (fun name => .code ("mod " ++ escapeKeyword name ++ ";")) ++
    (if modules.isEmpty then [] else [.code ""]) ++
    modules.map (fun name => .code ("pub use " ++ escapeKeyword name ++ "::*;"))

/-- The root of some modules. -/
def rootFile (modules : List String) : TextFile :=
  ⟨"mod.rs", sourceText (rootLines modules)⟩

/-- All files, the root last. -/
def finish (emitted : Emitted) : List TextFile :=
  emitted.files ++ [rootFile emitted.modules]

end Emitted

/-- Plans as Rust sources. -/
def backend (scalars : Scalars) : Backend Emitted (List TextFile) :=
  ⟨.none, Emitted.emit scalars, Emitted.finish⟩

end QuerySurface.Traits
