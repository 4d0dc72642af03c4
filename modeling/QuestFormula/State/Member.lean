import QuestFormula.Parameter.Value
import QuestFormula.Number.Decimal
import QuestFormula.Text.Blank

/-!
The members of a quest's progress state, and how the value of a member is reduced to the 64-bit
number that a formula reads.
-/

namespace QuestFormula

/-- The type of a member that formulas can read. -/
inductive ReadableType where
  | number (t : NumericType)
  | truth
  | text
  | parameter (t : NumericType)
deriving DecidableEq

/-- How the value of a member becomes a number. -/
inductive Reduction where
  | parameterValue
  | direct
  | numericConversion
  | genericConversion
  | notNumeric
deriving DecidableEq

namespace Reduction

def describe : Reduction → String
  | parameterValue => "reducer"
  | direct => "direct"
  | numericConversion => "numeric conversion"
  | genericConversion => "generic conversion"
  | notNumeric => "not numeric"

def label : Reduction → String
  | parameterValue => "Reducer"
  | direct => "Direct"
  | numericConversion => "NumericConversion"
  | genericConversion => "GenericConversion"
  | notNumeric => "NotNumeric"

end Reduction

namespace ReadableType

def Value : ReadableType → Type
  | number t => t.Value
  | truth => Bool
  | text => String
  | parameter t => Parameter t.Value

def reduction : ReadableType → Reduction
  | number .float64 => .direct
  | number _ => .numericConversion
  | truth | text => .genericConversion
  | parameter _ => .parameterValue

/-- The number that a text stands for apart from blanks at its ends; a text that stands for none is
not a number. -/
def textToFloat (text : String) : Float :=
  (readNumber? (trimBlank text.toList)).getD BinaryValue.nan.toFloat

/-- The number that a formula reads: a truth value counts as one or zero, and a parameter as its
value now. -/
def reduce : (t : ReadableType) → t.Value → Float
  | number t, v => t.toFloat v
  | truth, b => floatOfInt (if (show Bool from b) then 1 else 0)
  | text, s => textToFloat s
  | parameter t, p => Parameter.toFloat t p

end ReadableType

/-- The type of a member: one that formulas can read, or one without a numeric meaning. -/
inductive MemberType where
  | readable (t : ReadableType)
  | unreadable
deriving DecidableEq

namespace MemberType

/-- The values of a member. Of one without a numeric meaning nothing is kept. -/
def Value : MemberType → Type
  | readable t => t.Value
  | unreadable => Unit

def reduction : MemberType → Reduction
  | readable t => t.reduction
  | unreadable => .notNumeric

/-- The number that a formula reads, if the type has one. -/
def reduce? : (t : MemberType) → Option (t.Value → Float)
  | readable t => some t.reduce
  | unreadable => none

end MemberType

/-- A member of a state type: the names it answers to, the name of its type in messages, its type,
and whether it is hidden from formulas. -/
structure Member where
  name : String
  otherName : Option String
  excluded : Bool
  typeName : String
  type : MemberType
deriving DecidableEq

/-- Every name that the member answers to, each once. -/
def Member.names (m : Member) : List String :=
  m.name :: (m.otherName.filter (· ≠ m.name)).toList

end QuestFormula
