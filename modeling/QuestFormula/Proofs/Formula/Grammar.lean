import QuestFormula.Formula.Parser

/-! The grammar of formulas, as a relation between phrases, tokens and expressions.  `Derives` has
one constructor for each alternative of the grammar

    expression := factor (('+' | '-') factor)*
    factor     := unary (('*' | '/') unary)*
    unary      := '-' unary | primary
    primary    := NUMBER | IDENTIFIER | '(' expression ')'

and reads the repetitions from the left: a longer sum has a shorter one as its left operand.
Parentheses group and leave nothing in the expression. -/

namespace QuestFormula

/-- The phrases of the grammar. -/
inductive Phrase where
  | expression | factor | unary | primary

/-- The tokens are a phrase of the grammar, and the expression is what they mean. -/
inductive Derives : Phrase → List PlacedToken → Expr → Prop
  | number (value : Float) (position : Nat) :
      Derives .primary [⟨.number value, position⟩] (.literal value)
  | name (text : String) (position : Nat) :
      Derives .primary [⟨.name text, position⟩] (.var text position)
  | parens {ts : List PlacedToken} {e : Expr} (openedAt closedAt : Nat)
      (inner : Derives .expression ts e) :
      Derives .primary (⟨.openParen, openedAt⟩ :: ts ++ [⟨.closeParen, closedAt⟩]) e
  | primary {ts : List PlacedToken} {e : Expr} (h : Derives .primary ts e) : Derives .unary ts e
  | minus {ts : List PlacedToken} {e : Expr} (position : Nat) (operand : Derives .unary ts e) :
      Derives .unary (⟨.operator .sub, position⟩ :: ts) (.negate e)
  | unary {ts : List PlacedToken} {e : Expr} (h : Derives .unary ts e) : Derives .factor ts e
  | product {ts us : List PlacedToken} {l r : Expr} {op : Operator} (position : Nat)
      (left : Derives .factor ts l) (tight : op.isProduct = true) (right : Derives .unary us r) :
      Derives .factor (ts ++ ⟨.operator op, position⟩ :: us) (.binary op l r)
  | factor {ts : List PlacedToken} {e : Expr} (h : Derives .factor ts e) : Derives .expression ts e
  | sum {ts us : List PlacedToken} {l r : Expr} {op : Operator} (position : Nat)
      (left : Derives .expression ts l) (loose : op.isProduct = false)
      (right : Derives .factor us r) :
      Derives .expression (ts ++ ⟨.operator op, position⟩ :: us) (.binary op l r)

theorem Derives.ne_nil {phrase : Phrase} {ts : List PlacedToken} {e : Expr}
    (h : Derives phrase ts e) : ts ≠ [] := by
  induction h with
  | primary _ ih | unary _ ih | factor _ ih => exact ih
  | _ => simp

end QuestFormula
