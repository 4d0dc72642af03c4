import QuestFormula.Number.Binary

/-!
The integer types that members, rewards and quest parameters may have, their values as integers
within bounds, and the two ways between them and 64-bit floating point: a value widens to the
nearest number, and a number becomes a value by rounding half away from zero and then clamping.
-/

namespace QuestFormula

/-- An integer type. The two without a width in their name are 64 bits wide. -/
inductive IntegerType where
  | i8 | i16 | i32 | i64 | isize
  | u8 | u16 | u32 | u64 | usize
deriving DecidableEq

namespace IntegerType

def all : List IntegerType := [i8, i16, i32, i64, isize, u8, u16, u32, u64, usize]

def name : IntegerType → String
  | i8 => "i8" | i16 => "i16" | i32 => "i32" | i64 => "i64" | isize => "isize"
  | u8 => "u8" | u16 => "u16" | u32 => "u32" | u64 => "u64" | usize => "usize"

def width : IntegerType → Nat
  | i8 | u8 => 8
  | i16 | u16 => 16
  | i32 | u32 => 32
  | i64 | isize | u64 | usize => 64

def isSigned : IntegerType → Bool
  | i8 | i16 | i32 | i64 | isize => true
  | u8 | u16 | u32 | u64 | usize => false

def size (t : IntegerType) : Nat := 1 <<< t.width

def low (t : IntegerType) : Int := if t.isSigned then -(t.size / 2 : Nat) else 0

def high (t : IntegerType) : Int := if t.isSigned then (t.size / 2 : Nat) - 1 else t.size - 1

theorem low_le_zero (t : IntegerType) : t.low ≤ 0 := by cases t <;> decide

theorem zero_le_high (t : IntegerType) : 0 ≤ t.high := by cases t <;> decide

theorem low_le_high (t : IntegerType) : t.low ≤ t.high := Int.le_trans t.low_le_zero t.zero_le_high

/-- An integer within the bounds of the type. -/
structure Value (t : IntegerType) where
  val : Int
  low_le : t.low ≤ val
  le_high : val ≤ t.high
deriving DecidableEq

@[ext] theorem Value.ext {t : IntegerType} {a b : t.Value} (h : a.val = b.val) : a = b := by
  cases a; cases b; cases h; rfl

instance {t : IntegerType} : Inhabited t.Value := ⟨⟨0, t.low_le_zero, t.zero_le_high⟩⟩

/-- The value of an integer that lies within the bounds. -/
def ofInt? (t : IntegerType) (n : Int) : Option t.Value :=
  if h : t.low ≤ n ∧ n ≤ t.high then some ⟨n, h.1, h.2⟩ else none

def clamp (t : IntegerType) (n : Int) : t.Value :=
  ⟨max t.low (min n t.high), Int.le_max_left _ _,
    Int.max_le.2 ⟨t.low_le_high, Int.min_le_right _ _⟩⟩

@[simp] theorem val_clamp (t : IntegerType) (n : Int) :
    (t.clamp n).val = max t.low (min n t.high) := rfl

theorem val_clamp_of_le (t : IntegerType) {n : Int} (hlow : t.low ≤ n) (hhigh : n ≤ t.high) :
    (t.clamp n).val = n := by
  rw [val_clamp, Int.min_eq_left hhigh, Int.max_eq_right hlow]

/-- The value congruent to an integer modulo the number of values. -/
def wrap (t : IntegerType) (n : Int) : t.Value :=
  t.clamp (if t.isSigned then n.bmod t.size else n % t.size)

def toFloat {t : IntegerType} (v : t.Value) : Float := floatOfInt v.val

/-- A number without its fraction, clamped to the bounds. What is not a number becomes zero. -/
def truncate (t : IntegerType) (x : Float) : t.Value :=
  match floatValue x with
  | .nan => t.clamp 0
  | .infinite negative => t.clamp (if negative then t.low else t.high)
  | .finite negative significand exponent =>
    let magnitude : Int := ((significand <<< exponent.toNat) >>> (-exponent).toNat : Nat)
    t.clamp (if negative then -magnitude else magnitude)

/-- A number rounded to the nearest integer, a half away from zero, and clamped to the bounds. What
is not a number becomes zero. -/
def ofFloat (t : IntegerType) (x : Float) : t.Value := t.truncate (roundFloat x)

end IntegerType

end QuestFormula
