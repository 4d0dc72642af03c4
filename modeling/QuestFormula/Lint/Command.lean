import QuestFormula.Lint.Render

/-!
The command line of the lint: a directory, and `--json` for a report as JSON. Arguments are taken
from left to right. An empty directory is only refused when the next option is taken or at the end,
and what the command line has no place for is refused at once.
-/

namespace QuestFormula

structure LintCommand where
  directory : String
  json : Bool
deriving DecidableEq

inductive ArgumentError where
  | missingDirectory
  | unknownArgument
  | repeatedOption
  | unneededValue
  | emptyDirectory
  | help
deriving DecidableEq

structure ArgumentState where
  directory : Option String
  json : Bool
  optionsEnded : Bool

namespace ArgumentState

def start : ArgumentState := ⟨none, false, false⟩

/-- A directory, which there is one of. -/
def positional (s : ArgumentState) (arg : String) : Except ArgumentError ArgumentState :=
  if s.directory.isSome then .error .unknownArgument else .ok { s with directory := some arg }

/-- The state with its directory checked. -/
def settled (s : ArgumentState) : Except ArgumentError ArgumentState :=
  if s.directory = some "" then .error .emptyDirectory else .ok s

/-- An option by its long name, with or without a value after an equals sign. -/
def long (s : ArgumentState) (name : List Char) (hasValue : Bool) :
    Except ArgumentError ArgumentState :=
  if name = "json".toList then
    if hasValue then .error .unneededValue
    else do
      let s ← s.settled
      if s.json then .error .repeatedOption else .ok { s with json := true }
  else if name = "help".toList then
    if hasValue then .error .unneededValue
    else do
      let _ ← s.settled
      .error .help
  else .error .unknownArgument

def step (s : ArgumentState) (arg : String) : Except ArgumentError ArgumentState :=
  if s.optionsEnded then s.positional arg
  else match arg.toList with
    | ['-', '-'] => .ok { s with optionsEnded := true }
    | '-' :: '-' :: rest =>
      s.long (rest.takeWhile (· != '=')) (rest.contains '=')
    | '-' :: 'h' :: _ => do
      let _ ← s.settled
      .error .help
    | '-' :: _ :: _ => .error .unknownArgument
    | _ => s.positional arg

def finish (s : ArgumentState) : Except ArgumentError LintCommand := do
  let s ← s.settled
  match s.directory with
  | none => .error .missingDirectory
  | some directory => .ok ⟨directory, s.json⟩

end ArgumentState

namespace LintCommand

def parse (args : List String) : Except ArgumentError LintCommand := do
  (← args.foldlM ArgumentState.step ArgumentState.start).finish

/-- A report as the command prints it. -/
def output (c : LintCommand) (r : LintReport) : String :=
  if c.json then r.json.prettyString ++ "\n" else r.text

/-- What the command prints, given what came of listing its directory, and whether the directory is
clean. -/
def run (c : LintCommand) (listing : Except FileFault Entries) :
    Except LintError (String × Bool) := do
  let report ← lintDirectory c.directory listing
  return (c.output report, report.isClean)

end LintCommand

end QuestFormula
