/-!
# Faults of files

Why reading or writing a file fails, with the text of each cause.
-/

namespace QuerySurface.Files

/-- Why a file cannot be read or written. -/
inductive Fault where
  /-- A part of the path does not exist. -/
  | missing
  /-- Something else stands where a directory is to be made. -/
  | exists
  /-- A part of the path is no directory. -/
  | notDirectory
  /-- A directory stands where a file is expected. -/
  | isDirectory
  /-- A name is longer than a directory can hold. -/
  | nameTooLong
  /-- A name holds the character zero. -/
  | zeroInName
  /-- The file is no UTF-8 text. -/
  | notText
  /-- Any other fault, as the system describes it. -/
  | other (description : String)
  deriving DecidableEq, Repr, Inhabited

/-- The text of a fault. -/
def Fault.message : Fault → String
  | .missing => "No such file or directory (os error 2)"
  | .exists => "File exists (os error 17)"
  | .notDirectory => "Not a directory (os error 20)"
  | .isDirectory => "Is a directory (os error 21)"
  | .nameTooLong => "File name too long (os error 36)"
  | .zeroInName => "file name contained an unexpected NUL byte"
  | .notText => "stream did not contain valid UTF-8"
  | .other description => description

end QuerySurface.Files
