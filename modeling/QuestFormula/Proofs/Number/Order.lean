import QuestFormula.Proofs.Number.Bits

/-! Floating-point numbers in their order.  A number stands for what its bits do, as a rational or
one of two infinities, and is at most another exactly if it stands for no more: of two numbers of one
sign, that with the greater exponent has the greater magnitude, since its significand has its leading
bit. -/

namespace QuestFormula

open Float.Model (Format UnpackedFloat)
open Float.Model.UnpackedFloat

/-! ### Numbers of a format in order of size -/

namespace BinaryFormat

variable {format : BinaryFormat}

/-- A significand and an exponent of the format: only with the least exponent is the leading bit
clear. -/
structure Canonical (format : BinaryFormat) (significand : ℕ) (exponent : ℤ) : Prop where
  significand_lt : significand < 2 * format.leadingBit
  minExponent_le : format.minExponent ≤ exponent
  leadingBit_le : format.minExponent < exponent → format.leadingBit ≤ significand

theorem canonical (format : BinaryFormat) (pattern : ℕ) :
    format.Canonical (format.significand pattern) (format.exponent pattern) := by
  have hmod := Nat.mod_lt pattern format.leadingBit_pos
  refine ⟨?_, ?_, fun h => ?_⟩
  · rw [significand]
    split_ifs <;> omega
  · rw [exponent]
    omega
  · rw [significand]
    split_ifs with hlt
    · rw [exponent, Nat.div_eq_of_lt hlt] at h
      omega
    · omega

theorem exists_pattern_of_value {bits significand : ℕ} {negative : Bool} {exponent : ℤ}
    (h : format.value bits = .finite negative significand exponent) :
    ∃ pattern < format.infinity,
      format.significand pattern = significand ∧ format.exponent pattern = exponent := by
  rw [value] at h
  split_ifs at h with hnan hinfinite
  cases h
  exact ⟨_, lt_of_le_of_ne (Nat.le_of_not_lt hnan) hinfinite, rfl, rfl⟩

theorem canonical_of_value {bits significand : ℕ} {negative : Bool} {exponent : ℤ}
    (h : format.value bits = .finite negative significand exponent) :
    format.Canonical significand exponent := by
  obtain ⟨pattern, -, rfl, rfl⟩ := exists_pattern_of_value h
  exact format.canonical pattern

theorem Canonical.lt_of_exponent_lt {m m' : ℕ} {e e' : ℤ} (h : format.Canonical m e)
    (h' : format.Canonical m' e') (hlt : e < e') : (m : ℚ) * 2 ^ e < m' * 2 ^ e' := by
  have hm : (m : ℚ) < 2 * format.leadingBit := by exact_mod_cast h.significand_lt
  have hm' : (format.leadingBit : ℚ) ≤ m' := by
    exact_mod_cast h'.leadingBit_le (h.minExponent_le.trans_lt hlt)
  calc (m : ℚ) * 2 ^ e < 2 * format.leadingBit * 2 ^ e := by gcongr
    _ = format.leadingBit * 2 ^ (e + 1) := by
      rw [zpow_add_one₀ two_ne_zero]
      ring
    _ ≤ m' * 2 ^ e' := by
      gcongr
      · exact one_le_two
      · omega

/-- The exponents decide, and the significands if these are equal. -/
theorem Canonical.compare_then_compare {m m' : ℕ} {e e' : ℤ} (h : format.Canonical m e)
    (h' : format.Canonical m' e') :
    (compare e e').then (compare m m') = compare ((m : ℚ) * 2 ^ e) (m' * 2 ^ e') := by
  rcases lt_trichotomy e e' with hlt | rfl | hlt
  · rw [compare_lt_iff_lt.mpr hlt, compare_lt_iff_lt.mpr (h.lt_of_exponent_lt h' hlt)]
    rfl
  · have hmono : StrictMono fun m : ℕ => (m : ℚ) * 2 ^ e := fun m m' hlt => by
      dsimp only
      gcongr
    rw [compare_eq_iff_eq.mpr rfl, Ordering.eq_then, ← cmp_eq_compare, ← cmp_eq_compare]
    exact (hmono.cmp_map_eq m m').symm
  · rw [compare_gt_iff_gt.mpr hlt, compare_gt_iff_gt.mpr (h'.lt_of_exponent_lt h hlt)]
    rfl

end BinaryFormat

/-- A rational of a sign. -/
def signedRat (negative : Bool) (q : ℚ) : ℚ := if negative then -q else q

/-- What a value stands for, if it is a number. -/
def BinaryValue.extended? : BinaryValue → Option (WithBot (WithTop ℚ))
  | nan => none
  | infinite negative => some (if negative then ⊥ else ⊤)
  | finite negative significand exponent =>
    some (signedRat negative (significand * 2 ^ exponent) : ℚ)

/-! ### Fields of the bits -/

theorem toNat_unpackExponent (b : BitVec Format.binary64.numBits) :
    (unpackExponent b).toNat = b.toNat / 2 ^ 52 % 2 ^ 11 := by
  rw [← Nat.shiftRight_eq_div_pow]
  simp [unpackExponent]

theorem toNat_unpackMantissa (b : BitVec Format.binary64.numBits) :
    (unpackMantissa b).toNat = b.toNat % 2 ^ 52 := by
  simp [unpackMantissa]

theorem toNat_unpackSign (b : BitVec Format.binary64.numBits) :
    (unpackSign b).toNat = b.toNat / 2 ^ 63 := by
  have hlt : b.toNat < 2 ^ 64 := b.isLt
  have h : (unpackSign b).toNat = b.toNat >>> 63 % 2 ^ 1 := by
    simp [unpackSign]
  rw [h, Nat.shiftRight_eq_div_pow]
  omega

def isNegative : Sign → Bool
  | .negative => true
  | .positive => false

theorem isNegative_unpackSign (b : BitVec Format.binary64.numBits) :
    isNegative (Sign.ofBitVec (unpackSign b)) = decide (2 ^ 63 ≤ b.toNat) := by
  have hlt : b.toNat < 2 ^ 64 := b.isLt
  have hsign := toNat_unpackSign b
  by_cases h : 2 ^ 63 ≤ b.toNat
  · have hone : (unpackSign b).toNat = 1 := by omega
    rw [BitVec.eq_of_toNat_eq (y := 1#1) hone, decide_eq_true h]
    rfl
  · have hzero : (unpackSign b).toNat = 0 := by omega
    rw [BitVec.eq_of_toNat_eq (y := 0#1) hzero, decide_eq_false h]
    rfl

theorem value_of_fields {bits fraction : ℕ} (exponent : ℕ) (hfraction : fraction < 2 ^ 52)
    (h : bits % 2 ^ 63 = exponent * 2 ^ 52 + fraction) :
    BinaryFormat.binary64.value bits =
      if exponent = 2047 then
        if fraction = 0 then .infinite (decide (2 ^ 63 ≤ bits)) else .nan
      else if exponent = 0 then .finite (decide (2 ^ 63 ≤ bits)) fraction (-1074)
      else .finite (decide (2 ^ 63 ≤ bits)) (2 ^ 52 + fraction) (exponent - 1075) := by
  have hleading : BinaryFormat.binary64.leadingBit = 2 ^ 52 := by decide
  have hinfinity : BinaryFormat.binary64.infinity = 2047 * 2 ^ 52 := by decide
  have hsignBit : BinaryFormat.binary64.signBit = 2 ^ 63 := by decide
  have hleast : BinaryFormat.binary64.minExponent = -1074 := by decide
  have hquotient : (exponent * 2 ^ 52 + fraction) / 2 ^ 52 = exponent := by omega
  have hrest : (exponent * 2 ^ 52 + fraction) % 2 ^ 52 = fraction := by omega
  simp only [BinaryFormat.value, BinaryFormat.significand, BinaryFormat.exponent, hleading,
    hinfinity, hsignBit, hleast, h, hquotient, hrest]
  by_cases hones : exponent = 2047
  · subst hones
    by_cases hzero : fraction = 0
    · rw [if_neg (by omega), if_pos (by omega), if_pos rfl, if_pos hzero]
    · rw [if_pos (by omega), if_pos rfl, if_neg hzero]
  · rw [if_neg (by omega), if_neg (by omega), if_neg hones]
    by_cases hzero : exponent = 0
    · subst hzero
      rw [if_pos (by omega), if_pos rfl, Nat.zero_mul, Nat.zero_add]
      rfl
    · rw [if_neg (by omega), if_neg hzero]
      congr 1
      omega

/-- What an unpacked number stands for. -/
def unpackedValue : UnpackedFloat → BinaryValue
  | .notANumber => .nan
  | .infinity s => .infinite (isNegative s)
  | .zero s => .finite (isNegative s) 0 (-1074)
  | .finite s mantissa exponent _ => .finite (isNegative s) mantissa exponent

theorem unpackedValue_unpack (b : BitVec Format.binary64.numBits) :
    unpackedValue (unpack Format.binary64 b) = BinaryFormat.binary64.value b.toNat := by
  have hlt : b.toNat < 2 ^ 64 := b.isLt
  have hexponent := toNat_unpackExponent b
  have hmantissa := toNat_unpackMantissa b
  have hones : unpackExponent b = -1#11 ↔ (unpackExponent b).toNat = 2047 :=
    ⟨fun h => congrArg BitVec.toNat h, fun h => BitVec.eq_of_toNat_eq h⟩
  have hzeros : unpackExponent b = 0#11 ↔ (unpackExponent b).toNat = 0 :=
    ⟨fun h => congrArg BitVec.toNat h, fun h => BitVec.eq_of_toNat_eq h⟩
  have hzero : unpackMantissa b = 0#52 ↔ (unpackMantissa b).toNat = 0 :=
    ⟨fun h => congrArg BitVec.toNat h, fun h => BitVec.eq_of_toNat_eq h⟩
  rw [value_of_fields (unpackExponent b).toNat (unpackMantissa b).isLt (by omega),
    ← isNegative_unpackSign]
  simp only [← hones, ← hzeros, ← hzero]
  rw [unpack]
  split
  · split <;> rfl
  · split
    · rename_i hzeros'
      split
      · rename_i hzero'
        rw [hzero.mp hzero']
        rfl
      · show BinaryValue.finite _ _ _ = _
        rw [hzeros.mp hzeros']
        rfl
    · show BinaryValue.finite _ _ _ = _
      rw [toNat_one_append]
      rfl

/-! ### Numbers by any of their bits -/

/-- Of what is not a number only the bits may change. -/
theorem floatValue_ofBits (b : UInt64) :
    floatValue (Float.ofBits b) = BinaryFormat.binary64.value b.toNat := by
  by_cases h : @unpackExponent Format.binary64 b.toBitVec = -1#11 →
      @unpackMantissa Format.binary64 b.toBitVec = 0#52
  · have hbits : (Float.ofBits b).toBits = b := congrArg UInt64.ofBitVec (pack_unpack h)
    rw [floatValue, hbits]
  · obtain ⟨hones, hmantissa⟩ := Classical.not_imp.mp h
    have hnan : unpack Format.binary64 b.toBitVec = .notANumber := by
      rw [unpack, if_pos hones, if_neg hmantissa]
    have hbits : (Float.ofBits b).toBits =
        UInt64.ofBitVec (pack Format.binary64 (unpack Format.binary64 b.toBitVec)) := rfl
    have hvalue := unpackedValue_unpack b.toBitVec
    rw [hnan] at hbits hvalue
    rw [floatValue, hbits]
    exact Eq.trans (by decide) hvalue

theorem floatValue_floatOfPattern (negative : Bool) {pattern : ℕ}
    (h : pattern < BinaryFormat.binary64.infinity) :
    floatValue (floatOfPattern negative pattern) = .finite negative
      (BinaryFormat.binary64.significand pattern) (BinaryFormat.binary64.exponent pattern) := by
  have hlt : pattern < BinaryFormat.binary64.signBit := h.trans (by decide)
  have hbits : BinaryFormat.binary64.signed negative pattern < UInt64.size := by
    have hsize : UInt64.size = BinaryFormat.binary64.signBit + BinaryFormat.binary64.signBit := by
      decide
    rw [BinaryFormat.signed]
    split_ifs <;> omega
  have hpattern :
      BinaryFormat.binary64.signed negative pattern % BinaryFormat.binary64.signBit = pattern := by
    rw [BinaryFormat.signed]
    split_ifs
    · rw [Nat.add_mod_left, Nat.mod_eq_of_lt hlt]
    · exact Nat.mod_eq_of_lt hlt
  have hnegative : decide (BinaryFormat.binary64.signBit ≤
      BinaryFormat.binary64.signed negative pattern) = negative := by
    cases negative
    · exact decide_eq_false (Nat.not_le.mpr hlt)
    · exact decide_eq_true (Nat.le_add_right _ _)
  have hword : (UInt64.ofNat (BinaryFormat.binary64.signed negative pattern)).toNat =
      BinaryFormat.binary64.signed negative pattern := UInt64.toNat_ofNat_of_lt hbits
  rw [floatOfPattern, floatValue_ofBits, hword, BinaryFormat.value]
  simp only [hpattern, hnegative, if_neg (Nat.lt_asymm h), if_neg h.ne]

/-! ### Numbers in order -/

section Compare

variable {s s' : Sign} {m m' : ℕ} {e e' : ℤ} {hm : 0 < m} {hm' : 0 < m'}

theorem bot_lt_ratCast (q : ℚ) : (⊥ : WithBot (WithTop ℚ)) < (q : WithTop ℚ) :=
  WithBot.bot_lt_coe _

theorem ratCast_lt_top (q : ℚ) : ((q : WithTop ℚ) : WithBot (WithTop ℚ)) < ⊤ :=
  WithBot.coe_lt_coe.mpr (WithTop.coe_lt_top q)

theorem compare_ratCast (q r : ℚ) :
    compare ((q : WithTop ℚ) : WithBot (WithTop ℚ)) (r : WithTop ℚ) = compare q r := by
  rw [← cmp_eq_compare, ← cmp_eq_compare]
  exact (WithBot.coe_strictMono.comp WithTop.coe_strictMono).cmp_map_eq q r

theorem compare_neg (q r : ℚ) : compare (-q) (-r) = (compare q r).swap := by
  have hanti : StrictAnti (Neg.neg : ℚ → ℚ) := fun _ _ => neg_lt_neg
  rw [← cmp_eq_compare, ← cmp_eq_compare, cmp_swap, hanti.cmp_map_eq]

/-- Unpacked numbers with a significand and an exponent are compared as rationals. -/
theorem compare_finite (h : BinaryFormat.binary64.Canonical m e)
    (h' : BinaryFormat.binary64.Canonical m' e') :
    (UnpackedFloat.finite s m e hm).compare (.finite s' m' e' hm') =
      some (compare (signedRat (isNegative s) (m * 2 ^ e))
        (signedRat (isNegative s') (m' * 2 ^ e'))) := by
  have hpos : (0 : ℚ) < m * 2 ^ e := by positivity
  have hpos' : (0 : ℚ) < m' * 2 ^ e' := by positivity
  have hsame := h.compare_then_compare h'
  cases s with
  | positive =>
    cases s' with
    | positive => exact congrArg some hsame
    | negative =>
      have hgt : -(m' * 2 ^ e' : ℚ) < m * 2 ^ e := by linarith
      exact congrArg some (compare_gt_iff_gt.mpr hgt).symm
  | negative =>
    cases s' with
    | positive =>
      have hlt : -(m * 2 ^ e : ℚ) < m' * 2 ^ e' := by linarith
      exact congrArg some (compare_lt_iff_lt.mpr hlt).symm
    | negative =>
      show some ((compare e e').then (compare m m')).swap = some (compare (-_) (-_))
      rw [hsame, compare_neg]

end Compare

theorem extended?_zero (s : Sign) : (unpackedValue (.zero s)).extended? = some (0 : ℚ) := by
  simp [unpackedValue, BinaryValue.extended?, signedRat]

/-- The order of two unpacked numbers is that of what they stand for. -/
theorem compare_unpacked {u v : UnpackedFloat}
    (hu : ∀ {negative m e}, unpackedValue u = .finite negative m e →
      BinaryFormat.binary64.Canonical m e)
    (hv : ∀ {negative m e}, unpackedValue v = .finite negative m e →
      BinaryFormat.binary64.Canonical m e) :
    u.compare v = (unpackedValue u).extended?.bind fun a =>
      (unpackedValue v).extended?.map (compare a ·) := by
  cases u with
  | notANumber => rfl
  | infinity s =>
    cases v with
    | notANumber => cases s <;> rfl
    | infinity s' =>
      cases s <;> cases s'
      · exact congrArg some (compare_eq_iff_eq.mpr rfl).symm
      · exact congrArg some (compare_lt_iff_lt.mpr bot_lt_top).symm
      · exact congrArg some (compare_gt_iff_gt.mpr bot_lt_top).symm
      · exact congrArg some (compare_eq_iff_eq.mpr rfl).symm
    | zero | finite =>
      cases s
      · exact congrArg some (compare_lt_iff_lt.mpr (bot_lt_ratCast _)).symm
      · exact congrArg some (compare_gt_iff_gt.mpr (ratCast_lt_top _)).symm
  | zero s =>
    cases v with
    | notANumber => cases s <;> rfl
    | infinity s' =>
      cases s'
      · exact congrArg some (compare_gt_iff_gt.mpr (bot_lt_ratCast _)).symm
      · exact congrArg some (compare_lt_iff_lt.mpr (ratCast_lt_top _)).symm
    | zero s' =>
      rw [extended?_zero, extended?_zero]
      exact congrArg some (compare_eq_iff_eq.mpr rfl).symm
    | finite s' m' e' hm' =>
      have hpos : (0 : ℚ) < m' * 2 ^ e' := by positivity
      rw [extended?_zero]
      cases s'
      · exact congrArg some ((compare_ratCast _ _).trans
          (compare_gt_iff_gt.mpr (neg_lt_zero.mpr hpos))).symm
      · exact congrArg some ((compare_ratCast _ _).trans (compare_lt_iff_lt.mpr hpos)).symm
  | finite s m e hm =>
    cases v with
    | notANumber => cases s <;> rfl
    | infinity s' =>
      cases s'
      · exact congrArg some (compare_gt_iff_gt.mpr (bot_lt_ratCast _)).symm
      · exact congrArg some (compare_lt_iff_lt.mpr (ratCast_lt_top _)).symm
    | zero s' =>
      have hpos : (0 : ℚ) < m * 2 ^ e := by positivity
      rw [extended?_zero]
      cases s
      · exact congrArg some ((compare_ratCast _ _).trans
          (compare_lt_iff_lt.mpr (neg_lt_zero.mpr hpos))).symm
      · exact congrArg some ((compare_ratCast _ _).trans (compare_gt_iff_gt.mpr hpos)).symm
    | finite s' m' e' hm' =>
      rw [compare_finite (hu rfl) (hv rfl), ← compare_ratCast]
      rfl

/-- What a number stands for, if it is one. -/
def extended? (x : Float) : Option (WithBot (WithTop ℚ)) := (floatValue x).extended?

theorem extended?_floatOfPattern (negative : Bool) {pattern : ℕ}
    (h : pattern < BinaryFormat.binary64.infinity) : extended? (floatOfPattern negative pattern) =
      some ((signedRat negative (BinaryFormat.binary64.magnitude pattern) : WithTop ℚ) :
        WithBot (WithTop ℚ)) := by
  rw [extended?, floatValue_floatOfPattern negative h]
  rfl

theorem floatValue_toFloat {value : BinaryValue} (h : value.isFinite = false) :
    floatValue value.toFloat = value := by
  cases value with
  | nan => decide
  | infinite negative => cases negative <;> decide
  | finite => cases h

theorem unpackedValue_toBits (x : Float) :
    unpackedValue (unpack Format.binary64 x.toBits.toBitVec) = floatValue x :=
  unpackedValue_unpack x.toBits.toBitVec

/-- Numbers are compared as what they stand for. -/
theorem compare_toBits (x y : Float) :
    (unpack Format.binary64 x.toBits.toBitVec).compare (unpack Format.binary64 y.toBits.toBitVec) =
      (extended? x).bind fun a => (extended? y).map (compare a ·) := by
  have hcanonical (z : Float) {negative m e}
      (h : unpackedValue (unpack Format.binary64 z.toBits.toBitVec) = .finite negative m e) :
      BinaryFormat.binary64.Canonical m e :=
    BinaryFormat.canonical_of_value ((unpackedValue_toBits z).symm.trans h)
  have hcompare := compare_unpacked (hcanonical x) (hcanonical y)
  rwa [unpackedValue_toBits, unpackedValue_toBits] at hcompare

/-- A number is at most another exactly if both are numbers and what it stands for is. -/
theorem float_le_iff {x y : Float} :
    x ≤ y ↔ ∃ a b, extended? x = some a ∧ extended? y = some b ∧ a ≤ b := by
  have hle : x ≤ y ↔ ((unpack Format.binary64 x.toBits.toBitVec).compare
      (unpack Format.binary64 y.toBits.toBitVec)).any (·.isLE) = true := decide_eq_true_iff
  rw [hle, compare_toBits]
  cases extended? x with
  | none => simp
  | some a =>
    cases extended? y with
    | none => simp
    | some b => simp [Ordering.isLE_iff_ne_gt, compare_gt_iff_gt]

/-- Numbers that stand for the same are equal, as the two zeros are; what is not a number equals
nothing. -/
theorem float_beq_iff {x y : Float} :
    (x == y) = true ↔ ∃ a, extended? x = some a ∧ extended? y = some a := by
  have hbeq : (x == y) = ((unpack Format.binary64 x.toBits.toBitVec).compare
      (unpack Format.binary64 y.toBits.toBitVec) == some .eq) := rfl
  rw [hbeq, compare_toBits]
  cases extended? x with
  | none => simp
  | some a =>
    cases extended? y with
    | none => simp
    | some b =>
      simp only [Option.bind_some, Option.map_some, beq_iff_eq, Option.some.injEq,
        compare_eq_iff_eq, exists_eq_left']
      exact eq_comm

/-! ### Numbers by what they stand for -/

theorem isNegative_injective : Function.Injective isNegative := by
  intro s s' h
  cases s <;> cases s' <;> first | rfl | cases h

theorem unpackedValue_injective : Function.Injective unpackedValue := by
  intro u v h
  cases u <;> cases v <;> try cases h
  case notANumber.notANumber => rfl
  case infinity.infinity => rw [isNegative_injective (BinaryValue.infinite.inj h)]
  case zero.zero => rw [isNegative_injective (BinaryValue.finite.inj h).1]
  -- The significand of an unpacked number that is not zero is positive.
  case zero.finite hm => exact absurd (BinaryValue.finite.inj h).2.1 hm.ne
  case finite.zero s' m e hm s => exact absurd (BinaryValue.finite.inj h).2.1 hm.ne'
  case finite.finite =>
    obtain ⟨hs, rfl, rfl⟩ := BinaryValue.finite.inj h
    rw [isNegative_injective hs]

/-- The bits of a number are packed from what they unpack to, since only one pattern of bits is not
a number. -/
theorem pack_unpack_toBits (x : Float) :
    pack Format.binary64 (unpack Format.binary64 x.toBits.toBitVec) = x.toBits.toBitVec := by
  by_cases h : @unpackExponent Format.binary64 x.toBits.toBitVec = -1#11 →
      @unpackMantissa Format.binary64 x.toBits.toBitVec = 0#52
  · exact pack_unpack h
  · obtain ⟨hones, hmantissa⟩ := Classical.not_imp.mp h
    have hnan : unpack Format.binary64 x.toBits.toBitVec = .notANumber := by
      rw [unpack, if_pos hones, if_neg hmantissa]
    rw [hnan]
    exact (x.toModel.valid.eq_packedNaN hones hmantissa).symm

/-- A number is told by what it stands for, with the sign of zero; there is one that is not a
number. -/
theorem floatValue_injective : Function.Injective floatValue := by
  intro x y h
  have hunpack : unpack Format.binary64 x.toBits.toBitVec =
      unpack Format.binary64 y.toBits.toBitVec :=
    unpackedValue_injective (by rw [unpackedValue_toBits, unpackedValue_toBits, h])
  refine toBits_injective (UInt64.eq_of_toBitVec_eq ?_)
  rw [← pack_unpack_toBits x, hunpack, pack_unpack_toBits y]

/-- The value with the other sign. -/
def BinaryValue.negated : BinaryValue → BinaryValue
  | nan => nan
  | infinite negative => infinite !negative
  | finite negative significand exponent => finite (!negative) significand exponent

theorem unpackedValue_neg (u : UnpackedFloat) :
    unpackedValue u.neg = (unpackedValue u).negated := by
  cases u with
  | notANumber => rfl
  | infinity s | zero s | finite s => cases s <;> rfl

theorem BinaryFormat.exists_value_negated (format : BinaryFormat) {bits : ℕ}
    (h : bits < 2 * format.signBit) :
    ∃ bits' < 2 * format.signBit, format.value bits' = (format.value bits).negated := by
  have hnegated {negative : Bool} {bits' : ℕ}
      (hnegative : decide (format.signBit ≤ bits') = !negative)
      (hrest : bits' % format.signBit = bits % format.signBit)
      (hbits : decide (format.signBit ≤ bits) = negative) :
      format.value bits' = (format.value bits).negated := by
    simp only [value, hnegative, hrest, hbits]
    split_ifs <;> rfl
  by_cases hsign : format.signBit ≤ bits
  · exact ⟨bits - format.signBit, by omega, hnegated (decide_eq_false (by omega))
      (Nat.mod_eq_sub_mod hsign).symm (decide_eq_true hsign)⟩
  · exact ⟨bits + format.signBit, by omega, hnegated (decide_eq_true (by omega))
      (Nat.add_mod_right _ _) (decide_eq_false hsign)⟩

theorem floatValue_neg (x : Float) : floatValue (-x) = (floatValue x).negated := by
  have hsize : 2 * BinaryFormat.binary64.signBit = 2 ^ 64 := by decide
  obtain ⟨bits, hbits, hvalue⟩ :=
    BinaryFormat.binary64.exists_value_negated (x.toBits.toNat_lt.trans_eq hsize.symm)
  have hword : (UInt64.ofNat bits).toNat = bits :=
    UInt64.toNat_ofNat_of_lt (hbits.trans_eq hsize)
  -- The number made from the bits with the other sign is packed from what they unpack to.
  have hunpack : unpack Format.binary64 (UInt64.ofNat bits).toBitVec =
      (unpack Format.binary64 x.toBits.toBitVec).neg := by
    refine unpackedValue_injective ?_
    rw [unpackedValue_neg, unpackedValue_unpack, unpackedValue_toBits, floatValue, ← hvalue]
    exact congrArg _ hword
  have hneg : -x = Float.ofBits (UInt64.ofNat bits) :=
    toBits_injective (congrArg (fun u => UInt64.ofBitVec (pack Format.binary64 u)) hunpack.symm)
  rw [hneg, floatValue_ofBits, hword, hvalue, floatValue]

/-- The minus sign sets the sign. -/
theorem neg_floatOfPattern {pattern : ℕ} (h : pattern < BinaryFormat.binary64.infinity) :
    -floatOfPattern false pattern = floatOfPattern true pattern := by
  refine floatValue_injective ?_
  rw [floatValue_neg, floatValue_floatOfPattern _ h, floatValue_floatOfPattern _ h]
  rfl

end QuestFormula
