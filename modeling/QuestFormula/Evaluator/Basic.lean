import QuestFormula.Evaluator.Code
import QuestFormula.Reward.Basic

/-!
Evaluators: from a state to a reward. An evaluator reads each member that its formula refers to
once, in the order of its slots, runs its code on them, and builds the reward from the result.
-/

namespace QuestFormula

/-- A value and what was read on the way to it, in order. -/
structure Traced (β α : Type) where
  value : α
  reads : List β

instance {β : Type} : Monad (Traced β) where
  pure a := ⟨a, []⟩
  bind x f := ⟨(f x.value).value, x.reads ++ (f x.value).reads⟩

structure Reader (S : StateType) where
  binding : Binding S
  read : S.State → Float

def Reader.readFrom {S : StateType} (r : Reader S) (state : S.State) : Traced (Binding S) Float :=
  ⟨r.read state, [r.binding]⟩

namespace Frame

variable {S : StateType}

/-- The cells from `slot` on filled by readers in order, while there are cells left. -/
def fill (state : S.State) (slot : Nat) (cells : Vector Float inlineSlots) :
    List (Reader S) → Traced (Binding S) (Vector Float inlineSlots)
  | [] => pure cells
  | r :: rest =>
    if h : slot < inlineSlots then do
      let value ← r.readFrom state
      fill state (slot + 1) (cells.set slot value h) rest
    else pure cells

/-- The frame of what readers read, with the members read. -/
def read (readers : List (Reader S)) (state : S.State) : Traced (Binding S) Frame :=
  if readers.length ≤ inlineSlots then do
    let cells ← fill state 0 (.replicate inlineSlots 0) readers
    return small cells readers.length
  else do
    let values ← readers.mapM fun r => r.readFrom state
    return large values.toArray

end Frame

/-- What a formula compiles to for a state type and a reward type. -/
structure Evaluator (S : StateType) where
  formula : String
  readers : List (Reader S)
  code : Code
  construction : Construction

namespace Evaluator

variable {S : StateType}

/-- The result of the formula on a state, with the members read. -/
def trace (e : Evaluator S) (state : S.State) : Traced (Binding S) Float := do
  let frame ← Frame.read e.readers state
  return e.code.run frame

/-- The result of the formula on a state. -/
def evaluateRaw (e : Evaluator S) (state : S.State) : Float := (e.trace state).value

def materialize (e : Evaluator S) (x : Float) : Reward := e.construction.build x

/-- The reward for a state, with the members read. -/
def traceReward (e : Evaluator S) (state : S.State) : Traced (Binding S) Reward := do
  let result ← e.trace state
  return e.materialize result

/-- The reward for a state. -/
def evaluate (e : Evaluator S) (state : S.State) : Reward := (e.traceReward state).value

/-- The result and the reward for a state, with the members read. -/
def grant (e : Evaluator S) (state : S.State) : Traced (Binding S) (Float × Reward) := do
  let result ← e.trace state
  return (result, e.materialize result)

def debug (e : Evaluator S) : String :=
  "CompiledEvaluator \x7b formula: " ++ quoted e.formula ++
    ", variables: " ++ toString e.readers.length ++
    ", parameter: " ++ e.construction.parameter.debug ++ " \x7d"

end Evaluator

/-- The readers of bindings in order, or an error at the first that cannot be read. -/
def readersOf {S : StateType} (formula : String) :
    List (Binding S) → Except FormulaError (List (Reader S))
  | [] => .ok []
  | b :: rest =>
    match b.reader? with
    | none => .error (.nonNumericVariable formula b.member.name b.member.typeName)
    | some read => (readersOf formula rest).map (⟨b, read⟩ :: ·)

/-- The evaluator of a bound formula for a reward type, and what compiling saved. -/
def BoundFormula.compile {S : StateType} (bound : BoundFormula S) (R : RewardType) :
    Except FormulaError (Evaluator S × Code.Savings) := do
  let construction ← R.construction
  let readers ← readersOf bound.formula bound.bindings
  let (code, savings) := Code.ofExpr bound.expr
  return (⟨bound.formula, readers, code, construction⟩, savings)

def Evaluator.compiled {S : StateType} (e : Evaluator S) (savings : Code.Savings) : Event :=
  .formulaCompiled e.formula S.name e.construction.type.name e.readers.length savings.folded
    savings.specialized

end QuestFormula
