import Mathlib
import QuestFormula.Number.Binary

/-! Rounding to a binary format, on rational numbers.  `nearest` computes with a numerator and a
denominator; `rounded` is the same rounding of their quotient, so that equal quotients have equal
nearest patterns.  A number of the format is rounded to its own pattern. -/

namespace QuestFormula

/-- A power with its exponent split by sign. -/
theorem zpow_eq_div_toNat {b : ℚ} (hb : b ≠ 0) (z : ℤ) :
    b ^ z = b ^ z.toNat / b ^ (-z).toNat := by
  rw [← zpow_natCast, ← zpow_natCast, ← zpow_sub₀ hb]
  congr 1
  omega

/-- The natural number nearest to a rational that is not negative, a half to the even neighbour. -/
def roundedEven (q : ℚ) : ℕ :=
  let floor := ⌊q⌋₊
  if q - floor < 1 / 2 then floor else if 1 / 2 < q - floor then floor + 1 else floor + floor % 2

theorem roundHalfEven_eq {num den : ℕ} (hden : 0 < den) :
    roundHalfEven num den = roundedEven ((num : ℚ) / den) := by
  have hden' : (0 : ℚ) < den := by exact_mod_cast hden
  have hfloor : ⌊(num : ℚ) / den⌋₊ = num / den := Nat.floor_div_eq_div num den
  have hrest : (num : ℚ) / den - ((num / den : ℕ) : ℚ) = ((num % den : ℕ) : ℚ) / den := by
    have h : (num : ℚ) = den * ((num / den : ℕ) : ℚ) + ((num % den : ℕ) : ℚ) := by
      exact_mod_cast (Nat.div_add_mod num den).symm
    field_simp
    linarith
  have hbelow : ((num % den : ℕ) : ℚ) / den < 1 / 2 ↔ 2 * (num % den) < den := by
    rw [div_lt_div_iff₀ hden' two_pos, one_mul, mul_comm]
    exact_mod_cast Iff.rfl
  have habove : 1 / 2 < ((num % den : ℕ) : ℚ) / den ↔ den < 2 * (num % den) := by
    rw [div_lt_div_iff₀ two_pos hden', one_mul, mul_comm ((num % den : ℕ) : ℚ)]
    exact_mod_cast Iff.rfl
  simp only [roundHalfEven, roundedEven, hfloor, hrest, hbelow, habove]

@[simp] theorem roundedEven_natCast (n : ℕ) : roundedEven n = n := by
  simp [roundedEven]

theorem le_roundedEven {n : ℕ} {q : ℚ} (h : n ≤ q) : n ≤ roundedEven q := by
  have hfloor : n ≤ ⌊q⌋₊ := Nat.le_floor h
  simp only [roundedEven]
  split_ifs <;> omega

theorem roundedEven_eq_zero {q : ℚ} (h : q < 1 / 2) : roundedEven q = 0 := by
  have hfloor : ⌊q⌋₊ = 0 := Nat.floor_eq_zero.mpr (by linarith)
  simp only [roundedEven, hfloor, Nat.cast_zero, sub_zero, if_pos h]

theorem shiftLeft_le_shiftLeft_iff (num : ℕ) {den : ℕ} (hden : 0 < den) (l : ℤ) :
    den <<< l.toNat ≤ num <<< (-l).toNat ↔ (2 : ℚ) ^ l ≤ num / den := by
  have hden' : (0 : ℚ) < den := by exact_mod_cast hden
  rw [zpow_eq_div_toNat two_ne_zero, div_le_div_iff₀ (by positivity) hden', Nat.shiftLeft_eq,
    Nat.shiftLeft_eq, mul_comm den]
  exact_mod_cast Iff.rfl

theorem floorLog2_eq {num den : ℕ} (hnum : 0 < num) (hden : 0 < den) :
    floorLog2 num den = Int.log 2 ((num : ℚ) / den) := by
  have hden' : (0 : ℚ) < den := by exact_mod_cast hden
  have hq : (0 : ℚ) < num / den := by positivity
  -- The logarithm is the difference of those of the two numbers, or one less.
  have hle : ((num.log2 : ℤ) - den.log2) - 1 ≤ Int.log 2 ((num : ℚ) / den) := by
    rw [← Int.zpow_le_iff_le_log one_lt_two hq, sub_sub, ← Nat.cast_succ, zpow_sub₀ (by norm_num),
      zpow_natCast, zpow_natCast, div_le_div_iff₀ (by positivity) hden']
    have h1 : 2 ^ num.log2 ≤ num := Nat.log2_self_le hnum.ne'
    have h2 : den < 2 ^ (den.log2 + 1) := Nat.lt_log2_self
    exact_mod_cast Nat.mul_le_mul h1 h2.le
  have hlt : Int.log 2 ((num : ℚ) / den) < ((num.log2 : ℤ) - den.log2) + 1 := by
    rw [← Int.lt_zpow_iff_log_lt one_lt_two hq, sub_add_eq_add_sub, ← Nat.cast_succ,
      zpow_sub₀ (by norm_num), zpow_natCast, zpow_natCast, div_lt_div_iff₀ hden' (by positivity)]
    have h1 : num < 2 ^ (num.log2 + 1) := Nat.lt_log2_self
    have h2 : 2 ^ den.log2 ≤ den := Nat.log2_self_le hden.ne'
    exact_mod_cast Nat.mul_lt_mul_of_lt_of_le h1 h2 (by positivity)
  have hsplit := shiftLeft_le_shiftLeft_iff num hden ((num.log2 : ℤ) - den.log2)
  rw [show (2 : ℚ) = ((2 : ℕ) : ℚ) by norm_num, Int.zpow_le_iff_le_log one_lt_two hq] at hsplit
  simp only [floorLog2]
  split_ifs with h
  · have := hsplit.mp h
    omega
  · have := mt hsplit.mpr h
    omega

/-- The logarithm of a number with a significand in a range of powers. -/
theorem log_mul_zpow {m n : ℕ} (hm : 2 ^ n ≤ m) (hm' : m < 2 ^ (n + 1)) (e : ℤ) :
    Int.log 2 ((m : ℚ) * 2 ^ e) = n + e := by
  have hpos : 0 < m := lt_of_lt_of_le (by positivity) hm
  have hq : (0 : ℚ) < m * 2 ^ e := by positivity
  refine le_antisymm (Int.lt_add_one_iff.mp ?_) ?_
  · rw [← Int.lt_zpow_iff_log_lt one_lt_two hq, add_right_comm, ← Nat.cast_succ, Nat.cast_ofNat,
      zpow_add₀ two_ne_zero, zpow_natCast]
    gcongr
    exact_mod_cast hm'
  · rw [← Int.zpow_le_iff_le_log one_lt_two hq, Nat.cast_ofNat, zpow_add₀ two_ne_zero,
      zpow_natCast]
    gcongr
    exact_mod_cast hm

namespace BinaryFormat

variable (format : BinaryFormat)

/-- The exponent of the last place of the numbers next to a rational. -/
def unit (q : ℚ) : ℤ := max (Int.log 2 q - format.fractionBits) format.minExponent

/-- The pattern of the number nearest to a rational that is not negative. -/
def rounded (q : ℚ) : ℕ :=
  if q = 0 then 0
  else min format.infinity (roundedEven (q / 2 ^ format.unit q) +
    (format.unit q - format.minExponent).toNat * format.leadingBit)

theorem nearest_eq_rounded (num : ℕ) {den : ℕ} (hden : 0 < den) :
    format.nearest num den = format.rounded ((num : ℚ) / den) := by
  have hden' : (den : ℚ) ≠ 0 := by exact_mod_cast hden.ne'
  rcases Nat.eq_zero_or_pos num with rfl | hnum
  · simp [nearest, rounded]
  · have hnum' : (num : ℚ) ≠ 0 := by exact_mod_cast hnum.ne'
    rw [nearest, if_neg hnum.ne', rounded, if_neg (div_ne_zero hnum' hden'), unit,
      floorLog2_eq hnum hden]
    generalize max (Int.log 2 ((num : ℚ) / den) - format.fractionBits) format.minExponent = unit
    have hshift : 0 < den <<< unit.toNat := by
      rw [Nat.shiftLeft_eq]
      positivity
    dsimp only
    rw [roundHalfEven_eq hshift]
    congr 3
    rw [zpow_eq_div_toNat two_ne_zero, Nat.shiftLeft_eq, Nat.shiftLeft_eq]
    push_cast
    field_simp

/-- The number that a pattern below `infinity` stands for. -/
def magnitude (pattern : ℕ) : ℚ := format.significand pattern * 2 ^ format.exponent pattern

theorem leadingBit_eq : format.leadingBit = 2 ^ format.fractionBits := by
  rw [leadingBit, Nat.shiftLeft_eq, one_mul]

theorem leadingBit_pos : 0 < format.leadingBit := by
  rw [leadingBit_eq]
  positivity

theorem significand_add_exponent (pattern : ℕ) :
    format.significand pattern +
      (format.exponent pattern - format.minExponent).toNat * format.leadingBit = pattern := by
  have hpos := format.leadingBit_pos
  rw [exponent, add_sub_cancel_left, Int.toNat_natCast, significand]
  split_ifs with h
  · rw [Nat.div_eq_of_lt h, Nat.zero_sub, Nat.zero_mul, Nat.add_zero]
  · have hquotient : 1 ≤ pattern / format.leadingBit :=
      (Nat.one_le_div_iff hpos).mpr (Nat.le_of_not_lt h)
    obtain ⟨k, hk⟩ : ∃ k, pattern / format.leadingBit = k + 1 :=
      ⟨_, (Nat.sub_add_cancel hquotient).symm⟩
    have hsplit := Nat.div_add_mod' pattern format.leadingBit
    rw [hk, Nat.add_mul, Nat.one_mul] at hsplit
    rw [hk, Nat.add_sub_cancel]
    omega

/-- The last place of a number of the format is that of its significand. -/
theorem unit_magnitude {pattern : ℕ} (h : 0 < pattern) :
    format.unit (format.magnitude pattern) = format.exponent pattern := by
  rw [unit, magnitude]
  have hleading := format.leadingBit_eq
  by_cases hlt : pattern < format.leadingBit
  -- A subnormal number has the least exponent, and the logarithm of its significand is too small
  -- for a greater one; that of a normal number is the number of the stored bits.
  · have hsignificand : format.significand pattern = pattern := if_pos hlt
    have hexponent : format.exponent pattern = format.minExponent := by
      rw [exponent, Nat.div_eq_of_lt hlt, Nat.zero_sub, Nat.cast_zero, add_zero]
    have hlog : Nat.log 2 pattern < format.fractionBits :=
      Nat.log_lt_of_lt_pow h.ne' (hleading ▸ hlt)
    rw [hsignificand, hexponent, log_mul_zpow (Nat.pow_log_le_self 2 h.ne')
      (Nat.lt_pow_succ_log_self one_lt_two _)]
    omega
  · have hsignificand : format.significand pattern =
        format.leadingBit + pattern % format.leadingBit := if_neg hlt
    have hmod := Nat.mod_lt pattern format.leadingBit_pos
    have hexponent : format.minExponent ≤ format.exponent pattern := by
      rw [exponent]
      omega
    rw [hsignificand, log_mul_zpow (n := format.fractionBits) (by omega)
      (by rw [pow_succ]; omega)]
    omega

/-- A number of the format is nearest to itself. -/
theorem rounded_magnitude {pattern : ℕ} (h : pattern < format.infinity) :
    format.rounded (format.magnitude pattern) = pattern := by
  rcases Nat.eq_zero_or_pos pattern with rfl | hpos
  · simp [rounded, magnitude, significand, format.leadingBit_pos]
  · have hsignificand : format.significand pattern ≠ 0 := by
      have hpos' := format.leadingBit_pos
      rw [significand]
      split_ifs <;> omega
    have hmagnitude : format.magnitude pattern ≠ 0 := by
      rw [magnitude]
      positivity
    rw [rounded, if_neg hmagnitude, format.unit_magnitude hpos, magnitude,
      mul_div_cancel_right₀ _ (by positivity), roundedEven_natCast, significand_add_exponent]
    exact min_eq_right h.le

theorem infinity_eq : format.infinity = (2 ^ format.exponentBits - 1) * format.leadingBit := by
  rw [infinity, leadingBit_eq, Nat.shiftLeft_eq, Nat.shiftLeft_eq, Nat.one_mul]

/-- What is too great for the format is infinite. -/
theorem rounded_eq_infinity (hbits : 0 < format.exponentBits) {q : ℚ}
    (h : (2 : ℚ) ^ 2 ^ (format.exponentBits - 1) ≤ q) : format.rounded q = format.infinity := by
  have hq : 0 < q := lt_of_lt_of_le (by positivity) h
  have hlog : (2 ^ (format.exponentBits - 1) : ℕ) ≤ Int.log 2 q := by
    rw [← Int.zpow_le_iff_le_log one_lt_two hq, zpow_natCast]
    exact_mod_cast h
  have htop : 2 ^ format.exponentBits = 2 * 2 ^ (format.exponentBits - 1) := by
    rw [← pow_succ', Nat.sub_add_cancel hbits]
  have hone : 1 ≤ 2 ^ (format.exponentBits - 1) := Nat.one_le_two_pow
  have hmin : format.minExponent =
      2 - (2 ^ (format.exponentBits - 1) : ℕ) - format.fractionBits := by
    rw [minExponent, Nat.shiftLeft_eq, Nat.one_mul]
    rfl
  have hunit : format.unit q = Int.log 2 q - format.fractionBits := by
    rw [unit]
    omega
  have hsteps : format.leadingBit ≤ roundedEven (q / 2 ^ format.unit q) := by
    refine le_roundedEven ?_
    rw [hunit, le_div_iff₀ (by positivity), leadingBit_eq, Nat.cast_pow, Nat.cast_ofNat,
      ← zpow_natCast, ← zpow_add₀ two_ne_zero, add_sub_cancel]
    exact_mod_cast Int.zpow_log_le_self one_lt_two hq
  have hplaces : 2 ^ format.exponentBits - 2 ≤ (format.unit q - format.minExponent).toNat := by
    omega
  rw [rounded, if_neg hq.ne', min_eq_left]
  calc format.infinity
      = format.leadingBit + (2 ^ format.exponentBits - 2) * format.leadingBit := by
        rw [infinity_eq, Nat.add_comm, ← Nat.succ_mul]
        congr 1
        omega
    _ ≤ _ := Nat.add_le_add hsteps (Nat.mul_le_mul_right _ hplaces)

/-- What is less than half of the least positive number is zero. -/
theorem rounded_eq_zero {q : ℚ} (hq : 0 ≤ q) (h : q < 2 ^ (format.minExponent - 1)) :
    format.rounded q = 0 := by
  rcases hq.eq_or_lt with rfl | hpos
  · exact if_pos rfl
  have hlog : Int.log 2 q < format.minExponent - 1 := by
    rw [← Int.lt_zpow_iff_log_lt one_lt_two hpos]
    exact_mod_cast h
  have hunit : format.unit q = format.minExponent := by
    rw [unit]
    omega
  have hsteps : q / 2 ^ format.minExponent < 1 / 2 := by
    rw [div_lt_iff₀ (by positivity)]
    rwa [zpow_sub_one₀ two_ne_zero, mul_comm, ← one_div] at h
  rw [rounded, if_neg hpos.ne', hunit, roundedEven_eq_zero hsteps, sub_self, Int.toNat_zero,
    Nat.zero_mul]
  exact Nat.min_zero _

end BinaryFormat

end QuestFormula
