import QuestFormula.Formula.Token

/-!
The expressions that formulas denote. An expression is written with parentheses around every binary
operation, so that its text determines it.
-/

namespace QuestFormula

/-- An expression. A variable keeps the number of characters before it in the formula. -/
inductive Expr where
  | literal (value : Float)
  | var (name : String) (position : Nat)
  | binary (op : Operator) (left right : Expr)
  | negate (operand : Expr)
deriving DecidableEq

namespace Expr

/-- The expression written out, with parentheses around every binary operation. -/
def display : Expr → String
  | literal value => displayFloat value
  | var name _ => name
  | binary op left right => s!"({left.display} {op.symbol} {right.display})"
  | negate operand => s!"-{operand.display}"

def names : Expr → List String
  | literal _ => []
  | var name _ => [name]
  | binary _ left right => left.names ++ right.names
  | negate operand => operand.names

/-- The names of the variables without repetitions, by their first occurrence. -/
def variableNames (e : Expr) : List String := e.names.eraseDups

/-- The value of an expression without variables. -/
def constant? : Expr → Option Float
  | literal value => some value
  | var .. => none
  | binary op left right => do
    let a ← left.constant?
    let b ← right.constant?
    return op.apply a b
  | negate operand => operand.constant?.map fun value => -value

end Expr

end QuestFormula
