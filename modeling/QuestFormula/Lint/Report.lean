import QuestFormula.Quest.Error
import QuestFormula.QuestFile.Directory
import QuestFormula.Reward.Builtin

/-!
The lint of a directory of quest files: which variables each formula refers to, or why it is no
formula. Variables are not bound, since the state types are known to the game alone.
-/

namespace QuestFormula

/-- Something suspicious about a reward that is no error. -/
inductive LintWarning where
  | notBuiltin (rewardType : String)
  | nonFiniteConstant
deriving DecidableEq

def LintWarning.message : LintWarning → String
  | notBuiltin rewardType => s!"reward type {rewardType} is not built in"
  | nonFiniteConstant => "formula is a non-finite constant"

/-- The report on a reward: the variables of its formula, or why it is none. -/
structure FormulaReport where
  reward : RewardLine
  result : Except FormulaError (List String)
  warnings : List LintWarning

def FormulaReport.isError (f : FormulaReport) : Bool :=
  match f.result with
  | .error _ => true
  | .ok _ => false

/-- What a quest file holds, with the reports on its rewards. -/
structure QuestContents where
  name : String
  state : String
  formulas : List FormulaReport

/-- The report on a quest file: what it holds, or why it cannot be used. -/
structure TemplateReport where
  path : String
  result : Except QuestFileError QuestContents

/-- The report on a directory, with the numbers of errors and warnings. -/
structure LintReport where
  templates : List TemplateReport
  errors : Nat
  warnings : Nat

def LintReport.isClean (r : LintReport) : Bool := r.errors == 0

/-- The report on a reward. -/
def lintReward (r : RewardLine) : FormulaReport :=
  let unknown : List LintWarning :=
    if r.rewardType ∈ builtinKinds then [] else [.notBuiltin r.rewardType]
  match parse r.formula with
  | .error e => ⟨r, .error e, unknown⟩
  | .ok expr =>
    let suspicious : List LintWarning :=
      if expr.constant?.any fun x => !(floatValue x).isFinite then [.nonFiniteConstant] else []
    ⟨r, .ok expr.variableNames, unknown ++ suspicious⟩

def lintTemplate (path : String) : Except QuestFileError QuestFile → TemplateReport
  | .error e => ⟨path, .error e⟩
  | .ok q => ⟨path, .ok ⟨q.name, q.state, q.rewards.map lintReward⟩⟩

namespace LintReport

/-- The report with the error and the warnings of a reward counted. -/
def count (r : LintReport) (f : FormulaReport) : LintReport :=
  { r with
    errors := r.errors + if f.isError then 1 else 0
    warnings := r.warnings + f.warnings.length }

/-- The report with one more quest file after its own, and its errors and warnings counted. -/
def add (r : LintReport) (t : TemplateReport) : LintReport :=
  let counted := match t.result with
    | .error _ => { r with errors := r.errors + 1 }
    | .ok contents => contents.formulas.foldl count r
  { counted with templates := counted.templates ++ [t] }

end LintReport

structure LintError where
  directory : String
  fault : FileFault
deriving DecidableEq

/-- What was attempted, why it failed, and the reason of that again. -/
def LintError.message (e : LintError) : String :=
  s!"failed to scan template directory {e.directory}: {e.directory}: {e.fault.message}: " ++
    e.fault.message

/-- The report on quest files by path. -/
def lintFiles (files : List (String × Except QuestFileError QuestFile)) : LintReport :=
  files.foldl (fun report file => report.add (lintTemplate file.1 file.2)) ⟨[], 0, 0⟩

/-- The report on a directory, given what came of listing it. -/
def lintDirectory (directory : String) : Except FileFault Entries → Except LintError LintReport
  | .error fault => .error ⟨directory, fault⟩
  | .ok entries => .ok (lintFiles (QuestFile.loadEntries directory entries).value)

end QuestFormula
