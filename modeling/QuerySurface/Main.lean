import QuerySurface.CommandLine.Run

/-!
# The program

The file system of the machine as a disk, the surroundings of the process, and the entry
point, which prints what a run reports and ends with its status.
-/

namespace QuerySurface.Program

open Files (Disk Fault)

/-- The fault behind an error of the system. -/
def faultOf : IO.Error → Fault
  | .noFileOrDirectory _ _ _ => .missing
  | .alreadyExists _ _ _ => .exists
  | .inappropriateType _ 20 _ => .notDirectory
  | .inappropriateType _ 21 _ => .isDirectory
  | error => .other (toString error)

/-- Runs an action; an error becomes a fault. -/
def guarded {α : Type} (action : IO α) : IO (Except Fault α) := do
  try
    return .ok (← action)
  catch error =>
    return .error (faultOf error)

/-- Whether a path names something of one type. -/
def hasType (kind : IO.FS.FileType) (path : String) : IO Bool := do
  try
    return (← (System.mkFilePath [path]).metadata).type == kind
  catch _ =>
    return false

/-- The paths of all files below a directory. -/
def filesBelow (path : String) : IO (List String) := do
  let found ← guarded (System.mkFilePath [path]).walkDir
  let paths := (found.toOption.getD #[]).toList.map (·.toString)
  paths.filterM (hasType .file)

/-- The file system of the machine. -/
def disk : Disk IO where
  isDirectory := hasType .dir
  isFile := hasType .file
  filesBelow := filesBelow
  read path := guarded (IO.FS.readBinFile path)
  makeDirectory path := guarded (IO.FS.createDir path)
  write path bytes := guarded (IO.FS.writeBinFile path bytes)

/-- The variables of the environment, as the system lists them. -/
def environment : IO (List (String × String)) := do
  let listing ← guarded (IO.FS.readBinFile "/proc/self/environ")
  let text := Text.decodeLossy ((listing.toOption.getD .empty).toList)
  return (Text.splitOn (Char.ofNat 0) text.toList).filterMap fun line =>
    match line.dropWhile (· != '=') with
    | _ :: value => some (String.ofList (line.takeWhile (· != '=')), String.ofList value)
    | [] => none

/-- The directory of the settings of the user. -/
def userDirectory : IO (Option String) := do
  match ← IO.getEnv "XDG_CONFIG_HOME", ← IO.getEnv "HOME" with
  | some path, home =>
    if Files.isAbsolute path then return some path
    return home.map (Files.join · ".config")
  | none, home => return home.map (Files.join · ".config")

/-- The surroundings of the process. -/
def surroundings : IO Settings.Surroundings := do
  return ⟨(← IO.currentDir).toString, ← userDirectory, ← environment⟩

end QuerySurface.Program

/-- Runs the program. -/
def main (arguments : List String) : IO UInt32 := do
  let report ← QuerySurface.CommandLine.execute QuerySurface.Program.disk
    (← QuerySurface.Program.surroundings) arguments
  (← IO.getStdout).putStr report.printed
  (← IO.getStderr).putStr report.complaint
  return report.status.toUInt32
