import QuestFormula.Lint.Command

/-!
Command line: lints a directory of quest files. The exit code is zero if the directory is clean,
one if it is not or cannot be read, and two if the arguments are wrong.
-/

namespace QuestFormula

def usage : String :=
  "Check the reward formulas of a quest template directory\n\n" ++
    "Usage: formula-lint [--json] <DIR>\n\n" ++
    "Arguments:\n  <DIR>  Directory of `*.quest` template files\n\n" ++
    "Options:\n      --json  Print the report as JSON\n  -h, --help  Print help"

def ArgumentError.message : ArgumentError → String
  | missingDirectory => "the following required arguments were not provided: <DIR>"
  | unknownArgument => "unexpected argument found"
  | repeatedOption => "the argument '--json' cannot be used multiple times"
  | unneededValue => "unexpected value for an option; no more were expected"
  | emptyDirectory => "a value is required for '<DIR>' but none was supplied"
  | help => usage

/-- The fault that an error of the system means. -/
def faultOf : IO.Error → FileFault
  | .noFileOrDirectory .. => .notFound
  | .inappropriateType _ 20 _ => .notDirectory
  | .inappropriateType _ 21 _ => .isDirectory
  | error => .other (toString error)

/-- An entry of a directory, without the entries of its own. -/
def readEntry (entry : IO.FS.DirEntry) : IO (String × FileNode) := do
  if ← entry.path.isDir then return (entry.fileName, .directory [])
  try
    return (entry.fileName, .ofBytes (← IO.FS.readBinFile entry.path))
  catch error =>
    return (entry.fileName, .file (.error (faultOf error)))

/-- The entries of a directory, or why it cannot be listed. -/
def listing (directory : String) : IO (Except FileFault Entries) := do
  let here : IO.FS.DirEntry := { root := directory, fileName := "." }
  try
    return .ok (← (← here.path.readDir).toList.mapM readEntry)
  catch error =>
    return .error (faultOf error)

/-- Prints what a command prints, and returns the exit code. -/
def LintCommand.execute (c : LintCommand) : IO UInt32 := do
  match c.run (← listing c.directory) with
  | .ok (output, clean) =>
    IO.print output
    return if clean then 0 else 1
  | .error error =>
    IO.eprintln s!"Error: {error.message}"
    return 1

end QuestFormula

/-- Lints the directory that the arguments name. -/
def main (args : List String) : IO UInt32 := do
  match QuestFormula.LintCommand.parse args with
  | .ok command => command.execute
  | .error .help =>
    IO.println QuestFormula.usage
    return 0
  | .error error =>
    IO.eprintln s!"error: {error.message}"
    return 2
