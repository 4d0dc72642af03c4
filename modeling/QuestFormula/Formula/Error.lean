import QuestFormula.Formula.Parser

/-!
Why a formula does not compile. Every error is found before the formula is evaluated; evaluation
cannot fail.
-/

namespace QuestFormula

/-- Why a formula does not compile for a state type and a reward type. -/
inductive FormulaError where
  | parse (formula : String) (fault : PlacedFault)
  | unknownVariable (formula name stateType : String)
  | ambiguousVariable (formula name : String) (candidates : List String)
  | nonNumericVariable (formula name typeName : String)
  | noConstruction (rewardType : String)
  | ambiguousConstruction (rewardType : String) (parameters : List String)
  | descriptorMismatch (descriptor requested : String)
deriving DecidableEq

namespace FormulaError

def message : FormulaError → String
  | parse formula fault =>
    s!"Parse error in `{formula}` at position {fault.position}: {fault.fault.message}"
  | unknownVariable formula name stateType =>
    s!"Unknown variable `{name}` in `{formula}` for state {stateType}"
  | ambiguousVariable formula name candidates =>
    s!"Ambiguous variable `{name}` in `{formula}`: declared by " ++ ", ".intercalate candidates
  | nonNumericVariable formula name typeName =>
    s!"Variable `{name}` in `{formula}` has non-numeric type {typeName}"
  | noConstruction rewardType => s!"Reward type {rewardType} has no usable construction path"
  | ambiguousConstruction rewardType parameters =>
    s!"Reward type {rewardType} has {parameters.length} usable construction paths (" ++
      ", ".intercalate parameters ++ ")"
  | descriptorMismatch descriptor requested =>
    s!"Descriptor for {descriptor} used to compile {requested}"

/-- The formula that the error is about. An error about a reward type or a descriptor alone names
none. -/
def formula? : FormulaError → Option String
  | parse formula _ | unknownVariable formula .. | ambiguousVariable formula ..
  | nonNumericVariable formula .. => some formula
  | noConstruction _ | ambiguousConstruction .. | descriptorMismatch .. => none

end FormulaError

def parse (formula : String) : Except FormulaError Expr :=
  (parseFormula formula).mapError (.parse formula)

end QuestFormula
