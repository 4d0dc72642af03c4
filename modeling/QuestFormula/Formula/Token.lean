import QuestFormula.Number.Shortest

/-!
The tokens of a formula and its four operators.
-/

namespace QuestFormula

inductive Operator where
  | add | sub | mul | div
deriving DecidableEq

namespace Operator

def apply : Operator → Float → Float → Float
  | add, a, b => a + b
  | sub, a, b => a - b
  | mul, a, b => a * b
  | div, a, b => a / b

def symbol : Operator → Char
  | add => '+'
  | sub => '-'
  | mul => '*'
  | div => '/'

/-- The operator binds tighter than addition. -/
def isProduct : Operator → Bool
  | add | sub => false
  | mul | div => true

end Operator

inductive Token where
  | number (value : Float)
  | name (text : String)
  | operator (op : Operator)
  | openParen
  | closeParen
  | finish
deriving DecidableEq

namespace Token

def describe : Token → String
  | number value => s!"number {displayFloat value}"
  | name text => s!"identifier `{text}`"
  | operator op => s!"'{op.symbol}'"
  | openParen => "'('"
  | closeParen => "')'"
  | finish => "end of formula"

/-- The operator that the token is, if it is one. -/
def operator? : Token → Option Operator
  | operator op => some op
  | _ => none

end Token

/-- A token and the number of characters before it. -/
structure PlacedToken where
  token : Token
  position : Nat
deriving DecidableEq

end QuestFormula
