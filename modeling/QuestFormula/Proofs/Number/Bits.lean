import QuestFormula.Proofs.Number.Decimal

/-! The bits of floating-point numbers.  Making a number from bits keeps them unless they are those of
what is not a number, since unpacking the bits and packing them again does; so a number without
sign is told by its pattern, and its digits read back as the number itself. -/

namespace QuestFormula

open Float.Model (Format UnpackedFloat)
open Float.Model.UnpackedFloat

/-! ### Packing what was unpacked -/

theorem toBitVec_ofBitVec_sign (v : BitVec 1) : (Sign.ofBitVec v).toBitVec = v := by
  revert v
  decide

theorem packComponents_unpack {b : BitVec Format.binary64.numBits} {exponent : BitVec 11}
    {mantissa : BitVec 52} (hexponent : unpackExponent b = exponent)
    (hmantissa : unpackMantissa b = mantissa) :
    packComponents Format.binary64 (Sign.ofBitVec (unpackSign b)) exponent mantissa = b := by
  subst hexponent hmantissa
  simp only [packComponents, toBitVec_ofBitVec_sign, unpackSign, unpackExponent, unpackMantissa,
    BitVec.extractLsb]
  ext i hi
  grind

theorem pack_subnormal (s : Sign) (mantissa : BitVec 52) (h : 0 < mantissa.toNat) :
    pack Format.binary64 (.finite s mantissa.toNat (-1074) h) =
      packComponents Format.binary64 s 0#11 mantissa := by
  have hlog : mantissa.toNat.log2 < 52 := (Nat.log2_lt h.ne').mpr mantissa.isLt
  have hbits : ¬mantissa.toNat.log2 + 1 = Format.binary64.mantissaBits := by
    rw [show Format.binary64.mantissaBits = 53 from rfl]
    omega
  rw [pack, if_neg (by decide), if_neg hbits, BitVec.ofNat_toNat, BitVec.setWidth_eq]

/-- A significand with its leading bit. -/
theorem toNat_one_append (mantissa : BitVec 52) :
    (1#1 ++ mantissa).toNat = 2 ^ 52 + mantissa.toNat := by
  rw [BitVec.toNat_append, ← Nat.shiftLeft_add_eq_or_of_lt mantissa.isLt]
  rfl

theorem pack_normal (s : Sign) {exponent : BitVec 11} (mantissa : BitVec 52)
    (hones : exponent ≠ -1#11) (h : 0 < (1#1 ++ mantissa).toNat) :
    pack Format.binary64 (.finite s (1#1 ++ mantissa).toNat (exponent.toNat - 1075) h) =
      packComponents Format.binary64 s exponent mantissa := by
  have hvalue := toNat_one_append mantissa
  have hlog : (1#1 ++ mantissa).toNat.log2 + 1 = Format.binary64.mantissaBits := by
    rw [show Format.binary64.mantissaBits = 52 + 1 from rfl, Nat.add_right_cancel_iff, hvalue,
      Nat.log2_eq_iff (by omega)]
    omega
  have hexponent : exponent.toNat ≠ 2047 := fun h => hones (BitVec.eq_of_toNat_eq h)
  have hbiased : ((exponent.toNat - 1075 : ℤ) + Format.binary64.exponentBias +
      Format.binary64.mantissaBitsWithoutImplicit).toNat = exponent.toNat := by
    rw [show (Format.binary64.exponentBias : ℤ) = 1023 from rfl,
      show (Format.binary64.mantissaBitsWithoutImplicit : ℤ) = 52 from rfl]
    omega
  have hrange : ¬2 ^ Format.binary64.exponentBits ≤ exponent.toNat + 1 := by
    show ¬2048 ≤ exponent.toNat + 1
    omega
  rw [pack, hbiased, if_neg hrange, if_pos hlog, BitVec.ofNat_toNat, BitVec.setWidth_eq]
  congr 1
  refine BitVec.eq_of_toNat_eq ?_
  rw [BitVec.toNat_ofNat, hvalue]
  show (2 ^ 52 + mantissa.toNat) % 2 ^ 52 = mantissa.toNat
  omega

theorem pack_unpack {b : BitVec Format.binary64.numBits}
    (h : unpackExponent b = -1#11 → unpackMantissa b = 0#52) :
    pack Format.binary64 (unpack Format.binary64 b) = b := by
  rw [unpack]
  split
  · rename_i hones
    rw [if_pos (h hones)]
    exact packComponents_unpack hones (h hones)
  · rename_i hones
    split
    · rename_i hzero
      split
      · rename_i hmantissa
        exact packComponents_unpack hzero hmantissa
      · simp only [hzero]
        exact (pack_subnormal _ _ _).trans (packComponents_unpack hzero rfl)
    · exact (pack_normal _ _ hones _).trans (packComponents_unpack rfl rfl)

/-- No fraction is set in the bits of an infinity or of a finite number without sign. -/
theorem unpackMantissa_eq_zero {b : BitVec Format.binary64.numBits}
    (h : b.toNat ≤ BinaryFormat.binary64.infinity) (hones : unpackExponent b = -1#11) :
    unpackMantissa b = 0#52 := by
  have hexponent : b.toNat >>> 52 % 2 ^ 11 = 2047 := by
    have := congrArg BitVec.toNat hones
    simpa [unpackExponent] using this
  refine BitVec.eq_of_toNat_eq ?_
  rw [Nat.shiftRight_eq_div_pow] at hexponent
  rw [show BinaryFormat.binary64.infinity = 2047 * 2 ^ 52 by decide] at h
  have hmantissa : b.toNat % 2 ^ 52 = 0 := by omega
  simpa [unpackMantissa] using hmantissa

theorem compare_self {u : UnpackedFloat} (h : u ≠ .notANumber) : u.compare u = some .eq := by
  cases u with
  | notANumber => exact absurd rfl h
  | infinity s => cases s <;> rfl
  | zero s => rfl
  | finite s m e hm => cases s <;> simp [UnpackedFloat.compare]

/-! ### Numbers by their patterns -/

theorem toBits_ofBits {b : UInt64} (h : b.toNat ≤ BinaryFormat.binary64.infinity) :
    (Float.ofBits b).toBits = b :=
  congrArg UInt64.ofBitVec (pack_unpack (unpackMantissa_eq_zero h))

theorem toBits_injective : Function.Injective Float.toBits := by
  rintro ⟨⟨bits, valid⟩⟩ ⟨⟨bits', valid'⟩⟩ h
  cases (show bits = bits' from h)
  rfl

theorem infinity_lt_size : BinaryFormat.binary64.infinity < UInt64.size := by decide

theorem toBits_floatOfPattern {pattern : ℕ} (h : pattern ≤ BinaryFormat.binary64.infinity) :
    (floatOfPattern false pattern).toBits.toNat = pattern := by
  have hbits : (UInt64.ofNat pattern).toNat = pattern :=
    UInt64.toNat_ofNat_of_lt (lt_of_le_of_lt h infinity_lt_size)
  show (Float.ofBits (UInt64.ofNat pattern)).toBits.toNat = pattern
  rw [toBits_ofBits (by rwa [hbits]), hbits]

theorem floatOfPattern_toBits {x : Float} (h : x.toBits.toNat ≤ BinaryFormat.binary64.infinity) :
    floatOfPattern false x.toBits.toNat = x :=
  toBits_injective (UInt64.toNat_inj.mp (toBits_floatOfPattern h))

/-- The sign bit is clear, and the bits are those of a number, which may be infinite. -/
def IsUnsigned (x : Float) : Prop := x.toBits.toNat ≤ BinaryFormat.binary64.infinity

theorem isUnsigned_floatOfPattern {pattern : ℕ} (h : pattern ≤ BinaryFormat.binary64.infinity) :
    IsUnsigned (floatOfPattern false pattern) := by
  rwa [IsUnsigned, toBits_floatOfPattern h]

/-- The number is finite and its sign bit is clear. -/
def IsUnsignedFinite (x : Float) : Prop :=
  ∃ significand exponent, floatValue x = .finite false significand exponent

theorem isUnsignedFinite_iff {x : Float} :
    IsUnsignedFinite x ↔ x.toBits.toNat < BinaryFormat.binary64.infinity := by
  have hinfinity : BinaryFormat.binary64.infinity < BinaryFormat.binary64.signBit := by decide
  simp only [IsUnsignedFinite, floatValue, BinaryFormat.value]
  generalize x.toBits.toNat = bits
  constructor
  · rintro ⟨significand, exponent, h⟩
    split_ifs at h with hnan hinfinite
    simp only [BinaryValue.finite.injEq, decide_eq_false_iff_not, Nat.not_le] at h
    rw [Nat.mod_eq_of_lt h.1] at hnan hinfinite
    omega
  · intro h
    rw [Nat.mod_eq_of_lt (h.trans hinfinity), if_neg (Nat.lt_asymm h), if_neg h.ne,
      decide_eq_false (Nat.not_le.mpr (h.trans hinfinity))]
    exact ⟨_, _, rfl⟩

theorem lt_infinity_of_floatValue {x : Float} {negative : Bool} {significand : ℕ} {exponent : ℤ}
    (h : floatValue x = .finite negative significand exponent) :
    x.toBits.toNat % BinaryFormat.binary64.signBit < BinaryFormat.binary64.infinity := by
  rw [floatValue, BinaryFormat.value] at h
  split_ifs at h with hnan hinfinite
  exact lt_of_le_of_ne (Nat.le_of_not_lt hnan) hinfinite

theorem isUnsignedFinite_floatOfPattern {pattern : ℕ}
    (h : pattern < BinaryFormat.binary64.infinity) :
    IsUnsignedFinite (floatOfPattern false pattern) := by
  rwa [isUnsignedFinite_iff, toBits_floatOfPattern h.le]

theorem isUnsignedFinite_iff_isFinite {x : Float} (h : IsUnsigned x) :
    IsUnsignedFinite x ↔ (floatValue x).isFinite := by
  constructor
  · rintro ⟨significand, exponent, hvalue⟩
    rw [hvalue]
    rfl
  · intro hfinite
    cases hvalue : floatValue x with
    | nan | infinite =>
      rw [hvalue] at hfinite
      cases hfinite
    | finite negative significand exponent =>
      have hlt := lt_infinity_of_floatValue hvalue
      rw [Nat.mod_eq_of_lt (lt_of_le_of_lt h (by decide))] at hlt
      exact isUnsignedFinite_iff.mpr hlt

theorem floatValue_infinity :
    floatValue (floatOfPattern false BinaryFormat.binary64.infinity) = .infinite false := by
  rw [floatValue, toBits_floatOfPattern le_rfl]
  decide

/-- A finite number equals itself. -/
theorem IsUnsignedFinite.beq_self {x : Float} (h : IsUnsignedFinite x) : (x == x) = true := by
  have hunpack : unpack Format.binary64 x.toBits.toBitVec ≠ .notANumber := by
    intro hnan
    rw [unpack] at hnan
    split_ifs at hnan with hones hmantissa
    exact hmantissa (unpackMantissa_eq_zero (isUnsignedFinite_iff.mp h).le hones)
  show ((unpack Format.binary64 x.toBits.toBitVec).compare
    (unpack Format.binary64 x.toBits.toBitVec) == some .eq) = true
  rw [compare_self hunpack]
  rfl

/-! ### Digits -/

theorem displayFloat_eq {x : Float} (h : IsUnsignedFinite x) :
    displayFloat x = String.ofList (magnitudeText .binary64 x.toBits.toNat) := by
  have hbits : x.toBits.toNat % BinaryFormat.binary64.signBit = x.toBits.toNat :=
    Nat.mod_eq_of_lt ((isUnsignedFinite_iff.mp h).trans (by decide))
  obtain ⟨significand, exponent, hvalue⟩ := h
  rw [floatValue] at hvalue
  simp only [displayFloat, BinaryFormat.display, hvalue, hbits, if_neg Bool.false_ne_true]

theorem exists_plainText_displayFloat {x : Float} (h : IsUnsignedFinite x) :
    ∃ d, PlainText (displayFloat x).toList d ∧ d.toFloat false = x := by
  have hbits := isUnsignedFinite_iff.mp h
  obtain ⟨d, hd, hnearest⟩ := exists_plainText_magnitudeText hbits
  refine ⟨d, ?_, ?_⟩
  · rwa [displayFloat_eq h, String.toList_ofList]
  · rw [Decimal.toFloat, hnearest, floatOfPattern_toBits hbits.le]

end QuestFormula
