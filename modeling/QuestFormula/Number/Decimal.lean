import QuestFormula.Number.Binary

/-!
Decimal text and the 64-bit number nearest to it. A decimal is a natural number times a power of
ten. Plain literals are digits with an optional fraction; general text may also have a sign, an
exponent, or the name of infinity or of what is not a number.
-/

namespace QuestFormula

/-- The number of decimal digits of a positive number; zero has none. -/
def decimalLength (n : Nat) : Nat :=
  if n = 0 then 0 else decimalLength (n / 10) + 1
decreasing_by omega

/-- The number `digits · 10 ^ exponent`. -/
structure Decimal where
  digits : Nat
  exponent : Int
deriving DecidableEq

namespace Decimal

/-- The pattern nearest to a decimal. Beyond `10 ^ 400` every number of the formats here is
infinite and below `10 ^ -400` it is zero, so that no greater power of ten is computed. -/
def nearest (d : Decimal) (format : BinaryFormat) : Nat :=
  if d.digits = 0 then 0
  else if 400 < d.exponent then format.infinity
  else if (decimalLength d.digits : Int) + d.exponent < -400 then 0
  else format.nearest (d.digits * Nat.pow 10 d.exponent.toNat) (Nat.pow 10 (-d.exponent).toNat)

/-- The decimal with the given digits before and after its point, times a power of ten. -/
def ofDigits (whole fraction : List Char) (power : Int) : Decimal :=
  ⟨Nat.ofDigitChars 10 (whole ++ fraction) 0, power - fraction.length⟩

/-- The 64-bit number nearest to a decimal, with a sign. -/
def toFloat (d : Decimal) (negative : Bool) : Float :=
  floatOfPattern negative (d.nearest .binary64)

/-- The magnitude of an exponent. Digits after a magnitude of 65536 or more change nothing. -/
def powerOfDigits (digits : List Char) : Nat :=
  digits.foldl (fun n c => if n < 65536 then 10 * n + (c.toNat - '0'.toNat) else n) 0

/-- The exponent that may follow the digits: nothing, or the letter `e` in either case, an optional
sign, and digits. -/
def readPower? : List Char → Option Int
  | [] => some 0
  | c :: rest =>
    if c = 'e' ∨ c = 'E' then
      match rest with
      | '-' :: digits => (magnitude? digits).map fun n => -(n : Int)
      | '+' :: digits => (magnitude? digits).map fun n => (n : Int)
      | digits => (magnitude? digits).map fun n => (n : Int)
    else none
where
  /-- One or more digits, to the end. -/
  magnitude? (digits : List Char) : Option Nat :=
    if digits ≠ [] ∧ digits.all Char.isDigit then some (powerOfDigits digits) else none

/-- A decimal without sign: digits with an optional point before, among or after them, and an
optional exponent. -/
def read? (text : List Char) : Option Decimal :=
  let whole := text.takeWhile Char.isDigit
  let (fraction, tail) := match text.dropWhile Char.isDigit with
    | '.' :: rest => (rest.takeWhile Char.isDigit, rest.dropWhile Char.isDigit)
    | rest => ([], rest)
  if whole = [] ∧ fraction = [] then none
  else (readPower? tail).map (ofDigits whole fraction)

end Decimal

/-- Number text without its sign: `inf`, `infinity` or `nan` in any letter case, or a decimal. -/
def readUnsigned? (negative : Bool) (text : List Char) : Option Float :=
  let word := String.ofList (text.map Char.toLower)
  if word = "inf" ∨ word = "infinity" then some (BinaryValue.infinite negative).toFloat
  else if word = "nan" then some BinaryValue.nan.toFloat
  else (Decimal.read? text).map fun d => d.toFloat negative

/-- The number that a text stands for, if the whole of it is number text: an optional sign before
what `readUnsigned?` reads. -/
def readNumber? : List Char → Option Float
  | '-' :: rest => readUnsigned? true rest
  | '+' :: rest => readUnsigned? false rest
  | text => readUnsigned? false text

/-- A plain literal: digits, or digits, a point and digits. -/
def readLiteral? (text : List Char) : Option Float :=
  let whole := text.takeWhile Char.isDigit
  if whole = [] then none
  else match text.dropWhile Char.isDigit with
    | [] => some ((Decimal.ofDigits whole [] 0).toFloat false)
    | '.' :: fraction =>
      if fraction ≠ [] ∧ fraction.all Char.isDigit then
        some ((Decimal.ofDigits whole fraction 0).toFloat false)
      else none
    | _ => none

end QuestFormula
