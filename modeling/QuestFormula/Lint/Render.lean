import QuestFormula.Json.Printer
import QuestFormula.Lint.Report

/-!
Lint reports for readers, as lines of text or as JSON. What a report has not is left out of the
JSON.
-/

namespace QuestFormula

def FormulaReport.lines (f : FormulaReport) : List String :=
  let head := s!"  line {f.reward.line}: {f.reward.rewardType} = {f.reward.formula}"
  let body := match f.result with
    | .error e => [head, s!"    error: {e.message}"]
    | .ok [] => [head ++ "  [constant]"]
    | .ok names => [head ++ "  [" ++ ", ".intercalate names ++ "]"]
  body ++ f.warnings.map fun w => s!"    warning: {w.message}"

def TemplateReport.lines (t : TemplateReport) : List String :=
  t.path :: match t.result with
    | .error e => [s!"  error: {e.message}"]
    | .ok contents => contents.formulas.flatMap (·.lines)

/-- The lines of a report, the last with its totals. -/
def LintReport.lines (r : LintReport) : List String :=
  r.templates.flatMap (·.lines) ++
    [s!"{r.templates.length} templates, {r.errors} errors, {r.warnings} warnings"]

/-- The report as text, each line ended by a line feed. -/
def LintReport.text (r : LintReport) : String := String.join (r.lines.map (· ++ "\n"))

def textArray (texts : List String) : Json := .array (texts.map .ofText)

def FormulaReport.json (f : FormulaReport) : Json :=
  .record ([("line", .ofNat f.reward.line), ("reward_type", .ofText f.reward.rewardType),
      ("formula", .ofText f.reward.formula)] ++
    (match f.result with
      | .ok names => [("variables", textArray names)]
      | .error e => [("error", .ofText e.message)]) ++
    (if f.warnings = [] then [] else [("warnings", textArray (f.warnings.map (·.message)))]))

def TemplateReport.json (t : TemplateReport) : Json :=
  .record (("path", .ofText t.path) :: match t.result with
    | .error e => [("error", .ofText e.message), ("formulas", .array [])]
    | .ok contents =>
      [("name", .ofText contents.name), ("state", .ofText contents.state),
        ("formulas", .array (contents.formulas.map (·.json)))])

def LintReport.json (r : LintReport) : Json :=
  .record [("templates", .array (r.templates.map (·.json))), ("errors", .ofNat r.errors),
    ("warnings", .ofNat r.warnings)]

end QuestFormula
