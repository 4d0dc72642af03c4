import QuestFormula.Formula.Error
import QuestFormula.Number.Numeric
import QuestFormula.Text.Quoted

/-!
Reward types and the rewards they build from a formula result. A reward type can be used with
formulas if it has exactly one constructor with a single parameter, a number or a text.
-/

namespace QuestFormula

inductive ParameterType where
  | number (t : NumericType)
  | text
deriving DecidableEq

inductive ParameterKind where
  | integer | float | text
deriving DecidableEq

def ParameterKind.name : ParameterKind → String
  | integer => "Integer"
  | float => "Float"
  | text => "Text"

/-- How values are shown in debugging texts: as literals, with a text between quotes and a
floating-point number in decimal, or encoded, with a text as it is and a floating-point number by its
bits. -/
inductive ValueStyle where
  | literal | encoded
deriving DecidableEq

namespace ParameterType

def kind : ParameterType → ParameterKind
  | number (.integer _) => .integer
  | number _ => .float
  | text => .text

def name : ParameterType → String
  | number t => t.name
  | text => "String"

def Value : ParameterType → Type
  | number t => t.Value
  | text => String

/-- The value that a formula result becomes. -/
def ofFloat : (t : ParameterType) → Float → t.Value
  | number t, x => t.ofFloat x
  | text, x => invariantText x

def debugValue : (t : ParameterType) → ValueStyle → t.Value → String
  | number (.integer _), _, v => toString (IntegerType.Value.val v)
  | number .float32, .literal, x => displayFloat32 x
  | number .float32, .encoded, x => float32BitText x
  | number .float64, .literal, x => displayFloat x
  | number .float64, .encoded, x => floatBitText x
  | text, .literal, s => quoted s
  | text, .encoded, s => s

def debug (t : ParameterType) : String :=
  "ParamType \x7b kind: " ++ t.kind.name ++ ", name: " ++ quoted t.name ++ " \x7d"

end ParameterType

/-- A reward type: its identifier, its name in messages, the parameters of its constructors, and how
its values are shown. -/
structure RewardType where
  kind : String
  name : String
  constructors : List ParameterType
  style : ValueStyle
deriving DecidableEq

/-- A reward: what its constructor was given. -/
structure Reward where
  type : RewardType
  parameter : ParameterType
  value : parameter.Value

def Reward.debug (r : Reward) : String :=
  let shown := r.parameter.debugValue r.type.style r.value
  s!"{r.type.kind}({shown})"

/-- The one way to build a reward of a type from a number. -/
structure Construction where
  type : RewardType
  parameter : ParameterType
deriving DecidableEq

def Construction.build (c : Construction) (x : Float) : Reward :=
  ⟨c.type, c.parameter, c.parameter.ofFloat x⟩

/-- The way to build a reward of the type, if there is exactly one. -/
def RewardType.construction (R : RewardType) : Except FormulaError Construction :=
  match R.constructors with
  | [] => .error (.noConstruction R.name)
  | [parameter] => .ok ⟨R, parameter⟩
  | parameters => .error (.ambiguousConstruction R.name (parameters.map (·.name)))

end QuestFormula
