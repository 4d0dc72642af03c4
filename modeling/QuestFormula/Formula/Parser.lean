import QuestFormula.Formula.Expr
import QuestFormula.Formula.Lexer

/-!
From tokens to an expression, one token at a time. Multiplication and division bind tighter than
addition and subtraction, both to the left; a minus before an operand binds tighter than either; and
parentheses leave no trace in the expression. The state of the parser holds the work that each open
parenthesis has left pending, so a step never looks ahead or back.
-/

namespace QuestFormula

/-- The work pending between two parentheses: the left operand of a sum, that of a product within
it, and the minus signs before the operand to come. -/
structure Pending where
  sum : Option (Expr × Operator)
  product : Option (Expr × Operator)
  minuses : Nat
deriving DecidableEq

/-- A left operand with its operator, completed by the right operand. -/
def completed : Option (Expr × Operator) → Expr → Expr
  | none, right => right
  | some (left, op), right => .binary op left right

/-- An expression below `count` minus signs. -/
def negated : Nat → Expr → Expr
  | 0, e => e
  | count + 1, e => .negate (negated count e)

namespace Pending

def empty : Pending := ⟨none, none, 0⟩

/-- The product so far, after its next operand. -/
def factor (p : Pending) (operand : Expr) : Expr :=
  completed p.product (negated p.minuses operand)

/-- The whole, after its last product. -/
def total (p : Pending) (factor : Expr) : Expr := completed p.sum factor

end Pending

/-- The state between two tokens: the work pending here, the open parentheses outward with their
positions and the work pending before each, and the product so far if an operator is due; if there
is none, an operand is due. -/
structure ParseState where
  pending : Pending
  outer : List (Nat × Pending)
  factor : Option Expr
deriving DecidableEq

namespace ParseState

def start : ParseState := ⟨.empty, [], none⟩

def reduce (pending : Pending) (outer : List (Nat × Pending)) (operand : Expr) : ParseState :=
  ⟨pending, outer, some (pending.factor operand)⟩

/-- The state after a token where an operand is due. -/
def stepOperand (s : ParseState) (t : PlacedToken) : Except PlacedFault ParseState :=
  match t.token with
  | .number value => .ok (reduce s.pending s.outer (.literal value))
  | .name text => .ok (reduce s.pending s.outer (.var text t.position))
  | .operator .sub =>
    .ok { s with pending := { s.pending with minuses := s.pending.minuses + 1 } }
  | .openParen => .ok ⟨.empty, (t.position, s.pending) :: s.outer, none⟩
  | found => .error ⟨t.position, .missingOperand found⟩

/-- The state after a token where an operator is due. -/
def stepOperator (s : ParseState) (factor : Expr) (t : PlacedToken) :
    Except PlacedFault ParseState :=
  match t.token, s.outer with
  | .operator op, outer =>
    if op.isProduct then .ok ⟨⟨s.pending.sum, some (factor, op), 0⟩, outer, none⟩
    else .ok ⟨⟨some (s.pending.total factor, op), none, 0⟩, outer, none⟩
  | .closeParen, [] => .error ⟨t.position, .unopenedParen⟩
  | .closeParen, (_, pending) :: outer => .ok (reduce pending outer (s.pending.total factor))
  | found, [] => .error ⟨t.position, .trailing found⟩
  | found, (openedAt, _) :: _ => .error ⟨t.position, .missingClose openedAt found⟩

def step (s : ParseState) (t : PlacedToken) : Except PlacedFault ParseState :=
  match s.factor with
  | none => s.stepOperand t
  | some factor => s.stepOperator factor t

def finish (s : ParseState) (length : Nat) : Except PlacedFault Expr :=
  match s.factor, s.outer with
  | none, _ => .error ⟨length, .missingOperand .finish⟩
  | some factor, [] => .ok (s.pending.total factor)
  | some _, (openedAt, _) :: _ => .error ⟨length, .unclosedParen openedAt⟩

end ParseState

/-- The expression of a stream of tokens, or the fault at the first token that fits no formula. -/
def TokenStream.parse (stream : TokenStream) : Except PlacedFault Expr :=
  if stream.tokens = [] then .error ⟨0, .emptyFormula⟩
  else do
    let s ← stream.tokens.foldlM ParseState.step ParseState.start
    s.finish stream.length

/-- The expression of a formula, or the first fault in it. A fault in a token comes before every
fault in their order. -/
def parseFormula (formula : String) : Except PlacedFault Expr := do
  let stream ← tokenize formula
  stream.parse

end QuestFormula
