/-!
# Files to be written

A file that exists only in memory: its path below an output directory, and its contents.
-/

namespace QuerySurface.Files

/-- A text file. -/
structure TextFile where
  /-- Path below the output directory. -/
  path : String
  /-- Contents. -/
  contents : String
  deriving DecidableEq, Repr, Inhabited

end QuerySurface.Files
