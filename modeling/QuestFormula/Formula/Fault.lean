import QuestFormula.Formula.Token

/-!
What can be wrong with the text of a formula, and where.
-/

namespace QuestFormula

inductive Fault where
  | unexpectedCharacter (c : Char)
  | malformedNumber (text : String)
  | emptyFormula
  | missingOperand (found : Token)
  | unclosedParen (openedAt : Nat)
  | missingClose (openedAt : Nat) (found : Token)
  | unopenedParen
  | trailing (found : Token)
deriving DecidableEq

namespace Fault

def message : Fault → String
  | unexpectedCharacter c => s!"Unexpected character '{c}'"
  | malformedNumber text => s!"Malformed numeric literal '{text}'"
  | emptyFormula => "Empty formula"
  | missingOperand found => s!"Expected expression, found {found.describe}"
  | unclosedParen openedAt => s!"Unbalanced '(' opened at position {openedAt}"
  | missingClose openedAt found =>
    s!"Expected ')' to close '(' at position {openedAt}, found {found.describe}"
  | unopenedParen => "Unbalanced ')'"
  | trailing found => s!"Unexpected {found.describe} after expression"

end Fault

/-- A fault and the number of characters before it. -/
structure PlacedFault where
  position : Nat
  fault : Fault
deriving DecidableEq

end QuestFormula
