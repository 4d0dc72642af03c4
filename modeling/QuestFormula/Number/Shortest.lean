import QuestFormula.Number.Decimal

/-!
The text of a floating-point number: the fewest decimal digits that read back as the same number,
written positionally. Among the decimals of that length the nearest is taken, and of two equally
near the greater.
-/

namespace QuestFormula

namespace Decimal

/-- The same number without zeros at the end of the digits. -/
def trimmed (digits : Nat) (exponent : Int) : Decimal :=
  if h : digits ≠ 0 ∧ digits % 10 = 0 then trimmed (digits / 10) (exponent + 1)
  else ⟨digits, exponent⟩
termination_by digits
decreasing_by omega

/-- The greatest `k` with `10 ^ k ≤ num / den`, for positive numbers. -/
def floorLog10 (num den : Nat) : Int :=
  if den ≤ num then (decimalLength (num / den) : Int) - 1
  else -(decimalLength ((den - 1) / num) : Int)

/-- The exact decimal of `significand · 2 ^ exponent`. -/
def exact (significand : Nat) (exponent : Int) : Decimal :=
  trimmed (significand <<< exponent.toNat * Nat.pow 5 (-exponent).toNat) (min exponent 0)

/-- The decimal with exponent `exponent` next to `num / den` that reads back as `pattern`: the
nearer of the neighbours below and above if both do, and the one above if they are equally near. -/
def onGrid? (format : BinaryFormat) (pattern num den : Nat) (exponent : Int) : Option Decimal :=
  let scaledNum := num * Nat.pow 10 (-exponent).toNat
  let scaledDen := den * Nat.pow 10 exponent.toNat
  let below : Decimal := ⟨scaledNum / scaledDen, exponent⟩
  let above : Decimal := ⟨scaledNum / scaledDen + 1, exponent⟩
  match decide (below.nearest format = pattern), decide (above.nearest format = pattern) with
  | true, true => some (if 2 * (scaledNum % scaledDen) < scaledDen then below else above)
  | true, false => some below
  | false, true => some above
  | false, false => none

/-- The decimal of fewest digits that reads back as a pattern. Seventeen digits always suffice for
the formats here. -/
def shortest (format : BinaryFormat) (pattern : Nat) : Decimal :=
  let significand := format.significand pattern
  let exponent := format.exponent pattern
  let num := significand <<< exponent.toNat
  let den := 1 <<< (-exponent).toNat
  let top := floorLog10 num den
  match (List.range 17).findSome? fun n : Nat => onGrid? format pattern num den (top - n) with
  | some d => trimmed d.digits d.exponent
  | none => exact significand exponent

/-- A decimal written out: no exponent, and no point unless digits follow it. -/
def positional (d : Decimal) : List Char :=
  let digits := Nat.toDigits 10 d.digits
  if 0 ≤ d.exponent then
    if d.digits = 0 then ['0'] else digits ++ List.replicate d.exponent.toNat '0'
  else
    let places := (-d.exponent).toNat
    let padded := List.replicate (places + 1 - digits.length) '0' ++ digits
    let whole := padded.length - places
    padded.take whole ++ '.' :: padded.drop whole

end Decimal

/-- The digits of a finite number's magnitude. -/
def magnitudeText (format : BinaryFormat) (pattern : Nat) : List Char :=
  if pattern = 0 then ['0'] else (Decimal.shortest format pattern).positional

/-- A number as text in a format: `-` before a number with the sign set, `inf` and `NaN` for what
is not finite. -/
def BinaryFormat.display (format : BinaryFormat) (bits : Nat) : String :=
  let sign (negative : Bool) (rest : List Char) : String :=
    String.ofList (if negative then '-' :: rest else rest)
  match format.value bits with
  | .nan => "NaN"
  | .infinite negative => sign negative "inf".toList
  | .finite negative _ _ => sign negative (magnitudeText format (bits % format.signBit))

def displayFloat (x : Float) : String := BinaryFormat.binary64.display x.toBits.toNat

def displayFloat32 (x : Float32) : String := BinaryFormat.binary32.display x.toBits.toNat

/-- The text a formula result becomes, the same everywhere: as `displayFloat`, but `Infinity` for
infinity and `0` for negative zero. -/
def invariantText (x : Float) : String :=
  match floatValue x with
  | .nan => "NaN"
  | .infinite negative => if negative then "-Infinity" else "Infinity"
  | .finite _ significand _ => if significand = 0 then "0" else displayFloat x

end QuestFormula
