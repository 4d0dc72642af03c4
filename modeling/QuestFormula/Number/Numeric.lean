import QuestFormula.Number.Integer

/-!
The numeric types as one family: integers and the two floating-point formats, the conversion of
their values to the 64-bit numbers that formulas compute with, and back.
-/

namespace QuestFormula

/-- The type of a numeric member, reward parameter or quest parameter. -/
inductive NumericType where
  | integer (t : IntegerType)
  | float32
  | float64
deriving DecidableEq

namespace NumericType

def Value : NumericType → Type
  | .integer t => t.Value
  | .float32 => Float32
  | .float64 => Float

def name : NumericType → String
  | .integer t => t.name
  | .float32 => "f32"
  | .float64 => "f64"

def all : List NumericType := IntegerType.all.map .integer ++ [.float32, .float64]

def zero : (t : NumericType) → t.Value
  | .integer t => (default : t.Value)
  | .float32 => float32OfPattern false 0
  | .float64 => floatOfPattern false 0

instance {t : NumericType} : Inhabited t.Value := ⟨t.zero⟩

instance : {t : NumericType} → DecidableEq t.Value
  | .integer t => inferInstanceAs (DecidableEq t.Value)
  | .float32 => inferInstanceAs (DecidableEq Float32)
  | .float64 => inferInstanceAs (DecidableEq Float)

/-- A value as a 64-bit number: exact for floating point, the nearest for an integer. -/
def toFloat : (t : NumericType) → t.Value → Float
  | .integer _, v => IntegerType.toFloat v
  | .float32, x => widenFloat x
  | .float64, x => x

/-- The value a formula result becomes: rounded and clamped for an integer type, rounded to the
nearest for 32 bits. -/
def ofFloat : (t : NumericType) → Float → t.Value
  | .integer t, x => t.ofFloat x
  | .float32, x => narrowFloat x
  | .float64, x => x

/-- Equality of values as the numbers they are: zero equals negative zero, and what is not a number
equals nothing. -/
def same : (t : NumericType) → t.Value → t.Value → Bool
  | .integer _, a, b => a.val == b.val
  | .float32, a, b => (show Float32 from a) == (show Float32 from b)
  | .float64, a, b => (show Float from a) == (show Float from b)

/-- The order of values as the numbers they are. -/
def less : (t : NumericType) → t.Value → t.Value → Bool
  | .integer _, a, b => decide (a.val < b.val)
  | .float32, a, b => decide ((show Float32 from a) < (show Float32 from b))
  | .float64, a, b => decide ((show Float from a) < (show Float from b))

end NumericType

end QuestFormula
