/-!
Binary floating-point formats, as exact arithmetic on natural numbers. The non-negative numbers of a
format are counted by their bit patterns in order of size, so a pattern below `infinity` stands for
`significand · 2 ^ exponent`, and `nearest` counts the number nearest to a given fraction.
-/

namespace QuestFormula

/-- The quotient rounded to the nearest natural number, a half to the even neighbour. -/
def roundHalfEven (num den : Nat) : Nat :=
  let floor := num / den
  let twice := 2 * (num % den)
  if twice < den then floor else if den < twice then floor + 1 else floor + floor % 2

/-- The quotient rounded to the nearest natural number, a half up. -/
def roundHalfUp (num den : Nat) : Nat :=
  (2 * num + den) / (2 * den)

/-- The greatest `l` with `2 ^ l ≤ num / den`, for positive numbers. -/
def floorLog2 (num den : Nat) : Int :=
  let l : Int := (num.log2 : Int) - den.log2
  if den <<< l.toNat ≤ num <<< (-l).toNat then l else l - 1

/-- A format with `fractionBits` stored bits of the significand and `exponentBits` bits of the
exponent, below one sign bit. -/
structure BinaryFormat where
  fractionBits : Nat
  exponentBits : Nat

/-- What a bit pattern stands for. The value of a finite number is `significand · 2 ^ exponent`,
negated if `negative`. -/
inductive BinaryValue where
  | nan
  | infinite (negative : Bool)
  | finite (negative : Bool) (significand : Nat) (exponent : Int)
deriving DecidableEq

namespace BinaryFormat

def binary64 : BinaryFormat := ⟨52, 11⟩

def binary32 : BinaryFormat := ⟨23, 8⟩

variable (format : BinaryFormat)

/-- The bit before the fraction of a significand. It is not stored, and it is set unless the number is
subnormal. -/
def leadingBit : Nat := 1 <<< format.fractionBits

/-- The pattern of positive infinity; the patterns below it are the finite numbers without sign. -/
def infinity : Nat := (1 <<< format.exponentBits - 1) <<< format.fractionBits

/-- The pattern of the sign alone, which is negative zero. -/
def signBit : Nat := 1 <<< (format.exponentBits + format.fractionBits)

/-- The pattern of the one number that is not a number. -/
def nan : Nat := format.infinity + 1 <<< (format.fractionBits - 1)

/-- The exponent of the least positive number. -/
def minExponent : Int :=
  2 - (1 <<< (format.exponentBits - 1) : Nat) - format.fractionBits

/-- The significand of a pattern below `infinity`. -/
def significand (pattern : Nat) : Nat :=
  if pattern < format.leadingBit then pattern
  else format.leadingBit + pattern % format.leadingBit

/-- The exponent of a pattern below `infinity`. -/
def exponent (pattern : Nat) : Int :=
  format.minExponent + ((pattern / format.leadingBit - 1 : Nat) : Int)

/-- What a pattern with a sign bit stands for. -/
def value (bits : Nat) : BinaryValue :=
  let negative := decide (format.signBit ≤ bits)
  let pattern := bits % format.signBit
  if format.infinity < pattern then .nan
  else if pattern = format.infinity then .infinite negative
  else .finite negative (format.significand pattern) (format.exponent pattern)

def signed (negative : Bool) (pattern : Nat) : Nat :=
  if negative then format.signBit + pattern else pattern

/-- The pattern of the number nearest to `num / den`, a tie to the even pattern. What lies half a
unit or more beyond the largest number is infinite. -/
def nearest (num den : Nat) : Nat :=
  if num = 0 then 0
  else
    let unit := max (floorLog2 num den - format.fractionBits) format.minExponent
    let steps := roundHalfEven (num <<< (-unit).toNat) (den <<< unit.toNat)
    min format.infinity (steps + (unit - format.minExponent).toNat * format.leadingBit)

end BinaryFormat

/-- The nearest pattern to `mantissa · 2 ^ exponent`. -/
def BinaryFormat.nearestScaled (format : BinaryFormat) (mantissa : Nat) (exponent : Int) : Nat :=
  format.nearest (mantissa <<< exponent.toNat) (1 <<< (-exponent).toNat)

/-- The bits of a number in hexadecimal, with zeros in front up to the width of the format, or `NaN`
for what is not a number. -/
def BinaryFormat.bitText (format : BinaryFormat) (bits : Nat) : String :=
  match format.value bits with
  | .nan => "NaN"
  | _ =>
    let digits := Nat.toDigits 16 bits
    let width := (1 + format.exponentBits + format.fractionBits) / 4
    String.ofList (List.replicate (width - digits.length) '0' ++ digits)

def floatValue (x : Float) : BinaryValue :=
  BinaryFormat.binary64.value x.toBits.toNat

def float32Value (x : Float32) : BinaryValue :=
  BinaryFormat.binary32.value x.toBits.toNat

def floatBitText (x : Float) : String := BinaryFormat.binary64.bitText x.toBits.toNat

def float32BitText (x : Float32) : String := BinaryFormat.binary32.bitText x.toBits.toNat

/-- The 64-bit number of a sign and a pattern. -/
def floatOfPattern (negative : Bool) (pattern : Nat) : Float :=
  Float.ofBits (UInt64.ofNat (BinaryFormat.binary64.signed negative pattern))

def float32OfPattern (negative : Bool) (pattern : Nat) : Float32 :=
  Float32.ofBits (UInt32.ofNat (BinaryFormat.binary32.signed negative pattern))

/-- The 64-bit number nearest to what a value stands for. -/
def BinaryValue.toFloat : BinaryValue → Float
  | .nan => floatOfPattern false BinaryFormat.binary64.nan
  | .infinite negative => floatOfPattern negative BinaryFormat.binary64.infinity
  | .finite negative significand exponent =>
    floatOfPattern negative (BinaryFormat.binary64.nearestScaled significand exponent)

def BinaryValue.toFloat32 : BinaryValue → Float32
  | .nan => float32OfPattern false BinaryFormat.binary32.nan
  | .infinite negative => float32OfPattern negative BinaryFormat.binary32.infinity
  | .finite negative significand exponent =>
    float32OfPattern negative (BinaryFormat.binary32.nearestScaled significand exponent)

def BinaryValue.isFinite : BinaryValue → Bool
  | .finite .. => true
  | _ => false

/-- A 32-bit number as a 64-bit number, which is exact. -/
def widenFloat (x : Float32) : Float := (float32Value x).toFloat

/-- A 64-bit number rounded to 32 bits. -/
def narrowFloat (x : Float) : Float32 := (floatValue x).toFloat32

def floatOfInt (n : Int) : Float :=
  floatOfPattern (decide (n < 0)) (BinaryFormat.binary64.nearest n.natAbs 1)

/-- A number rounded to the nearest integer, a half away from zero, as a number of the same sign. What
is not finite stays as it is. -/
def roundFloat (x : Float) : Float :=
  match floatValue x with
  | .finite negative significand exponent =>
    let magnitude := roundHalfUp (significand <<< exponent.toNat) (1 <<< (-exponent).toNat)
    floatOfPattern negative (BinaryFormat.binary64.nearest magnitude 1)
  | _ => x

end QuestFormula
