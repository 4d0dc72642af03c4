import QuestFormula.Parameter.Value

/-!
Resolving a quest parameter with random words. An integer of a range is the high half of the product
of a word and the size of the range; a word whose low half lies beyond a zone is passed over, which
leaves every value equally likely. A floating-point number is a step of the range per fraction bit.
-/

namespace QuestFormula

/-- Random 64-bit words: those to come, after which every word is zero, and the number drawn. -/
structure WordSource where
  pending : List UInt64
  drawn : Nat

namespace WordSource

def draw (source : WordSource) : UInt64 × WordSource :=
  match source.pending with
  | [] => (0, ⟨[], source.drawn + 1⟩)
  | word :: rest => (word, ⟨rest, source.drawn + 1⟩)

/-- The high half of the first product of `size` and a word below `words` whose low half is within
the zone. The product with zero always is. -/
def drawScaled (words size zone drawn : Nat) : List UInt64 → Nat × WordSource
  | [] => (0, ⟨[], drawn + 1⟩)
  | word :: rest =>
    let product := word.toNat % words * size
    if product % words ≤ zone then (product / words, ⟨rest, drawn + 1⟩)
    else drawScaled words size zone (drawn + 1) rest

end WordSource

namespace IntegerType

/-- The number of bits of the words that an integer of the type is drawn with. -/
def wordBits (t : IntegerType) : Nat := if t.width ≤ 32 then 32 else 64

/-- The number of words that an integer of the type is drawn from. -/
def words (t : IntegerType) : Nat := 1 <<< t.wordBits

/-- The greatest low half that is accepted for a range of `size` values: for narrow types the whole
number of ranges that fit a word, otherwise a power of two times the range. -/
def zone (t : IntegerType) (size : Nat) : Nat :=
  if t.width ≤ 16 then t.words - 1 - (t.words - size) % size
  else size <<< (t.wordBits - 1 - size.log2) - 1

/-- A value from `low` to `high`, both included, where `low ≤ high`. -/
def roll (t : IntegerType) (low high : t.Value) (source : WordSource) : t.Value × WordSource :=
  let size := ((high.val - low.val + 1) % t.size).toNat
  if size = 0 then
    let (word, rest) := source.draw
    (t.wrap word.toNat, rest)
  else
    let (offset, rest) :=
      WordSource.drawScaled t.words size (t.zone size) source.drawn source.pending
    (t.wrap (low.val + offset), rest)

end IntegerType

/-- The greatest pattern from `pattern` down that fits. -/
def greatestFitting (fits : Nat → Bool) : Nat → Nat
  | 0 => 0
  | pattern + 1 => if fits (pattern + 1) then pattern + 1 else greatestFitting fits pattern

/-- The 64-bit numbers from `low` to `high`, both included; none if the range is too wide for a
finite step. -/
def rollFloat (low high : Float) (source : WordSource) : Option (Float × WordSource) :=
  let full : Float := 1 - 1 / 4503599627370496
  let step := (high - low) / full
  if step.isFinite then
    let fits (pattern : Nat) := !decide (high < floatOfPattern false pattern * full + low)
    let step := floatOfPattern false (greatestFitting fits step.toBits.toNat)
    let (word, rest) := source.draw
    some (floatOfInt (word.toNat >>> 12) / 4503599627370496 * step + low, rest)
  else none

/-- The 32-bit numbers from `low` to `high`, both included; none if the range is too wide for a
finite step. -/
def rollFloat32 (low high : Float32) (source : WordSource) : Option (Float32 × WordSource) :=
  let full : Float32 := 1 - 1 / 8388608
  let step := (high - low) / full
  if step.isFinite then
    let fits (pattern : Nat) := !decide (high < float32OfPattern false pattern * full + low)
    let step := float32OfPattern false (greatestFitting fits step.toBits.toNat)
    let (word, rest) := source.draw
    let fraction := narrowFloat (floatOfInt (word.toUInt32.toNat >>> 9))
    some (fraction / 8388608 * step + low, rest)
  else none

/-- A value from `low` to `high`, both included, where `low` is less than `high`; none if the range
is too wide. -/
def NumericType.roll : (t : NumericType) → t.Value → t.Value → WordSource →
    Option (t.Value × WordSource)
  | .integer t, low, high, source => some (t.roll low high source)
  | .float32, low, high, source => rollFloat32 low high source
  | .float64, low, high, source => rollFloat low high source

namespace Parameter

/-- The index of one of `count` values. -/
def rollIndex (count : Nat) (source : WordSource) : UInt64 × WordSource :=
  let (index, rest) := IntegerType.usize.roll (IntegerType.usize.clamp 0)
    (IntegerType.usize.clamp (count - 1)) source
  (UInt64.ofNat index.val.toNat, rest)

/-- The parameter with a range rolled that was not and a choice made that was not, unless there is
nothing to choose from. A range whose low end is not less than its high end rolls its low end
without a word. -/
def roll (t : NumericType) (p : Parameter t.Value) (source : WordSource) :
    Option (Parameter t.Value × WordSource) :=
  match p with
  | range low high none =>
    if t.less low high then
      (t.roll low high source).map fun (value, rest) => (range low high (some value), rest)
    else some (range low high (some low), source)
  | choice (first :: others) none =>
    let values := first :: others
    let (index, rest) := rollIndex values.length source
    some (choice values (some index), rest)
  | _ => some (p, source)

/-- A roll with the value that it gives, which is that of the parameter after it. -/
def rollValue (t : NumericType) (p : Parameter t.Value) (source : WordSource) :
    Option (t.Value × Parameter t.Value × WordSource) :=
  (p.roll t source).map fun (rolled, rest) => (rolled.value, rolled, rest)

end Parameter

end QuestFormula
