import QuestFormula.Number.Integer
import QuestFormula.Proofs.Number.Order

/-! What rounding to a binary format gives: the number of the format with the least distance.  The
quotient by the last place is rounded to the nearest integer.  Every other number of the format is a
multiple of that place too, or it is less than all that have their leading bit there, and then it is
further away.  So no number is nearer, and of two at the same distance the one with the even pattern
is taken.  An integer of a type widens to the number nearest to it in this sense, and a number of the
smaller format to itself. -/

namespace QuestFormula

/-! ### The nearest integer -/

theorem abs_roundedEven_sub_le {q : ℚ} (hq : 0 ≤ q) :
    |(roundedEven q : ℚ) - q| ≤ 1 / 2 ∧
      (|(roundedEven q : ℚ) - q| = 1 / 2 → roundedEven q % 2 = 0) := by
  have hle := Nat.floor_le hq
  have hlt := Nat.lt_floor_add_one q
  rw [roundedEven]
  generalize ⌊q⌋₊ = floor at *
  split_ifs with hbelow habove
  · rw [abs_sub_comm, abs_of_nonneg (by linarith)]
    exact ⟨hbelow.le, fun h => absurd h hbelow.ne⟩
  · rw [Nat.cast_succ, abs_of_nonneg (by linarith)]
    exact ⟨by linarith, fun h => by linarith⟩
  · have hhalf : q = floor + 1 / 2 := by linarith
    refine ⟨?_, fun _ => by omega⟩
    rcases Nat.mod_two_eq_zero_or_one floor with h | h
    · rw [h, hhalf]
      norm_num
    · rw [h, hhalf]
      norm_num

theorem roundedEven_le {q : ℚ} (hq : 0 ≤ q) {n : ℕ} (h : q ≤ n) : roundedEven q ≤ n := by
  by_contra hlt
  have hlt' : (n : ℚ) + 1 ≤ roundedEven q := by exact_mod_cast Nat.lt_of_not_ge hlt
  have hhalf := (abs_le.mp (abs_roundedEven_sub_le hq).1).2
  linarith

/-- No natural number is nearer, and where another is as near, the rounded one is even. -/
theorem roundedEven_nearest {q : ℚ} (hq : 0 ≤ q) (n : ℕ) :
    |(roundedEven q : ℚ) - q| ≤ |n - q| ∧
      (n ≠ roundedEven q → |(n : ℚ) - q| = |(roundedEven q : ℚ) - q| → roundedEven q % 2 = 0) := by
  obtain ⟨hhalf, heven⟩ := abs_roundedEven_sub_le hq
  generalize roundedEven q = r at *
  rcases eq_or_ne n r with rfl | hne
  · exact ⟨le_rfl, fun h => absurd rfl h⟩
  · have hone : (1 : ℚ) ≤ |(n : ℚ) - r| := by
      exact_mod_cast Int.one_le_abs (show (n : ℤ) - r ≠ 0 by omega)
    have htriangle : |(n : ℚ) - r| ≤ |n - q| + |(r : ℚ) - q| := by
      rw [abs_sub_comm (r : ℚ)]
      exact abs_sub_le _ _ _
    exact ⟨by linarith, fun _ h => heven (by linarith)⟩

/-- The same for the multiples of a power of two. -/
theorem roundedEven_div_nearest {q : ℚ} (hq : 0 ≤ q) (place : ℤ) (n : ℕ) :
    let m := roundedEven (q / 2 ^ place)
    |m * 2 ^ place - q| ≤ |n * 2 ^ place - q| ∧
      (n ≠ m → |n * 2 ^ place - q| = |m * 2 ^ place - q| → m % 2 = 0) := by
  intro m
  have hplace : (0 : ℚ) < 2 ^ place := by positivity
  have hscaled (r : ℚ) : |r * 2 ^ place - q| = |r - q / 2 ^ place| * 2 ^ place := by
    rw [← abs_of_pos hplace, ← abs_mul, abs_of_pos hplace, sub_mul, div_mul_cancel₀ _ hplace.ne']
  obtain ⟨hle, heven⟩ := roundedEven_nearest (div_nonneg hq hplace.le) n
  rw [hscaled, hscaled]
  exact ⟨mul_le_mul_of_nonneg_right hle hplace.le,
    fun hne heq => heven hne (mul_right_cancel₀ hplace.ne' heq)⟩

namespace BinaryFormat

variable (format : BinaryFormat)

/-- No number of the format is nearer to a rational, and where another is as near, the pattern is
even. -/
structure IsNearest (q : ℚ) (pattern : ℕ) : Prop where
  lt_infinity : pattern < format.infinity
  le : ∀ other < format.infinity, |format.magnitude pattern - q| ≤ |format.magnitude other - q|
  even : ∀ other < format.infinity, other ≠ pattern →
    |format.magnitude other - q| = |format.magnitude pattern - q| → pattern % 2 = 0

/-! ### The last place -/

/-- A significand, some places above the least if it has its leading bit. -/
theorem magnitude_add_mul {m k : ℕ} (hle : format.leadingBit ≤ m ∨ k = 0)
    (hlt : m < 2 * format.leadingBit) :
    format.magnitude (m + k * format.leadingBit) = m * 2 ^ (format.minExponent + k) := by
  have hpos := format.leadingBit_pos
  rw [magnitude, significand, exponent]
  rcases Nat.lt_or_ge m format.leadingBit with hsmall | hlarge
  · obtain rfl : k = 0 := hle.resolve_left (Nat.not_le.mpr hsmall)
    rw [Nat.zero_mul, Nat.add_zero, if_pos hsmall, Nat.div_eq_of_lt hsmall]
  · have hquotient : m / format.leadingBit = 1 :=
      (Nat.div_eq_iff hpos).mpr ⟨by omega, by omega⟩
    have hrest : m % format.leadingBit = m - format.leadingBit := by
      rw [Nat.mod_eq_sub_mul_div, hquotient, Nat.mul_one]
    rw [if_neg (by omega), Nat.add_mul_mod_self_right, hrest, Nat.add_sub_cancel' hlarge,
      Nat.add_mul_div_right _ _ hpos, hquotient, Nat.add_sub_cancel_left]

/-- A significand that is carried over is the least one of the next exponent. -/
theorem magnitude_add_mul_of_le {m k : ℕ} (hle : format.leadingBit ≤ m ∨ k = 0)
    (hlt : m ≤ 2 * format.leadingBit) :
    format.magnitude (m + k * format.leadingBit) = m * 2 ^ (format.minExponent + k) := by
  rcases hlt.eq_or_lt with rfl | hlt
  · have hpos := format.leadingBit_pos
    have hnext := format.magnitude_add_mul (k := k + 1) (.inl le_rfl) (by omega)
    rw [show 2 * format.leadingBit + k * format.leadingBit =
      format.leadingBit + (k + 1) * format.leadingBit by ring, hnext, Nat.cast_succ, ← add_assoc,
      zpow_add_one₀ two_ne_zero]
    push_cast
    ring
  · exact format.magnitude_add_mul hle hlt

@[simp] theorem magnitude_zero : format.magnitude 0 = 0 := by
  simp [magnitude, significand, format.leadingBit_pos]

theorem magnitude_injOn {pattern other : ℕ} (h : pattern < format.infinity)
    (h' : other < format.infinity) (heq : format.magnitude pattern = format.magnitude other) :
    pattern = other := by
  rw [← format.rounded_magnitude h, heq, format.rounded_magnitude h']

theorem unit_cases {q : ℚ} (hq : 0 < q) :
    format.unit q = format.minExponent ∨ format.leadingBit * 2 ^ format.unit q ≤ q := by
  rw [unit]
  rcases le_total (Int.log 2 q - format.fractionBits) format.minExponent with h | h
  · exact .inl (max_eq_right h)
  · right
    rw [max_eq_left h, leadingBit_eq, Nat.cast_pow, Nat.cast_ofNat, ← zpow_natCast,
      ← zpow_add₀ two_ne_zero, add_sub_cancel]
    exact_mod_cast Int.zpow_log_le_self one_lt_two hq

theorem lt_unit (q : ℚ) : q < 2 * format.leadingBit * 2 ^ format.unit q := by
  have hlog : Int.log 2 q + 1 ≤ format.fractionBits + 1 + format.unit q := by
    rw [unit]
    omega
  calc q < 2 ^ (Int.log 2 q + 1) := by exact_mod_cast Int.lt_zpow_succ_log_self one_lt_two q
    _ ≤ 2 ^ (format.fractionBits + 1 + format.unit q) := by gcongr; exact one_le_two
    _ = 2 * format.leadingBit * 2 ^ format.unit q := by
      rw [zpow_add₀ two_ne_zero, zpow_add_one₀ two_ne_zero, zpow_natCast, leadingBit_eq,
        mul_comm (2 : ℚ)]
      push_cast
      rfl

/-- A number of the format is a multiple of the last place for a rational, or it is less than the
least number with its leading bit in that place, which is no greater than the rational. -/
theorem magnitude_cases {q : ℚ} (hq : 0 < q) (pattern : ℕ) :
    (∃ n : ℕ, format.magnitude pattern = n * 2 ^ format.unit q) ∨
      format.magnitude pattern < format.leadingBit * 2 ^ format.unit q ∧
        format.leadingBit * 2 ^ format.unit q ≤ q := by
  have hcanonical := format.canonical pattern
  rw [magnitude]
  rcases le_or_gt (format.unit q) (format.exponent pattern) with hge | hbelow
  · obtain ⟨j, hj⟩ := Int.eq_ofNat_of_zero_le (sub_nonneg.mpr hge)
    refine .inl ⟨format.significand pattern * 2 ^ j, ?_⟩
    rw [show format.exponent pattern = j + format.unit q by omega, zpow_add₀ two_ne_zero,
      zpow_natCast]
    push_cast
    ring
  · have hsignificand : (format.significand pattern : ℚ) < 2 * format.leadingBit := by
      exact_mod_cast hcanonical.significand_lt
    refine .inr ⟨?_, (format.unit_cases hq).resolve_left
      fun hleast => absurd hcanonical.minExponent_le (by omega)⟩
    calc (format.significand pattern : ℚ) * 2 ^ format.exponent pattern
        < 2 * format.leadingBit * 2 ^ format.exponent pattern := by gcongr
      _ = format.leadingBit * 2 ^ (format.exponent pattern + 1) := by
        rw [zpow_add_one₀ two_ne_zero]
        ring
      _ ≤ format.leadingBit * 2 ^ format.unit q := by
        gcongr
        · exact one_le_two
        · omega

theorem roundedEven_unit_le {q : ℚ} (hq : 0 ≤ q) :
    roundedEven (q / 2 ^ format.unit q) ≤ 2 * format.leadingBit := by
  have hplace : (0 : ℚ) < 2 ^ format.unit q := by positivity
  refine roundedEven_le (div_nonneg hq hplace.le) ((div_le_iff₀ hplace).mpr ?_)
  exact_mod_cast (format.lt_unit q).le

/-! ### The nearest number -/

/-- The number that a rational is rounded to has the nearest multiple of the last place. -/
theorem exists_rounded_eq {q : ℚ} (hq : 0 < q) (h : format.rounded q < format.infinity) :
    let m := roundedEven (q / 2 ^ format.unit q)
    (∃ k, format.rounded q = m + k * format.leadingBit) ∧
      format.magnitude (format.rounded q) = m * 2 ^ format.unit q := by
  intro m
  have hplace : (0 : ℚ) < 2 ^ format.unit q := by positivity
  obtain ⟨k, hk⟩ := Int.eq_ofNat_of_zero_le
    (show 0 ≤ format.unit q - format.minExponent by rw [unit]; omega)
  have hunit : format.unit q = format.minExponent + k := by omega
  have hpattern : format.rounded q = m + k * format.leadingBit := by
    rw [rounded, if_neg hq.ne', hk, Int.toNat_natCast] at h ⊢
    exact min_eq_right (by omega)
  have hleading : format.leadingBit ≤ m ∨ k = 0 := by
    rcases format.unit_cases hq with hleast | hle
    · exact .inr (by omega)
    · exact .inl (le_roundedEven ((le_div_iff₀ hplace).mpr hle))
  refine ⟨⟨k, hpattern⟩, ?_⟩
  rw [hpattern, format.magnitude_add_mul_of_le hleading (format.roundedEven_unit_le hq.le), hunit]

/-- No other number is nearer to a positive rational, and where it is as near, the significand that is
taken is even. -/
theorem rounded_nearest {q : ℚ} (hq : 0 < q) (h : format.rounded q < format.infinity) {other : ℕ}
    (hother : other < format.infinity) :
    |format.magnitude (format.rounded q) - q| ≤ |format.magnitude other - q| ∧
      (other ≠ format.rounded q →
        |format.magnitude other - q| = |format.magnitude (format.rounded q) - q| →
        roundedEven (q / 2 ^ format.unit q) % 2 = 0) := by
  have hmagnitude := (format.exists_rounded_eq hq h).2
  have hnearest := roundedEven_div_nearest hq.le (format.unit q)
  generalize roundedEven (q / 2 ^ format.unit q) = m at hmagnitude hnearest ⊢
  rw [hmagnitude]
  rcases format.magnitude_cases hq other with ⟨n, hn⟩ | ⟨hless, hleading⟩
  · obtain ⟨hle, heven⟩ := hnearest n
    rw [hn]
    refine ⟨hle, fun hne => heven fun heq => hne (format.magnitude_injOn hother h ?_)⟩
    rw [hn, heq, hmagnitude]
  · have hfurther : |m * 2 ^ format.unit q - q| < |format.magnitude other - q| := by
      calc |m * 2 ^ format.unit q - q| ≤ |format.leadingBit * 2 ^ format.unit q - q| :=
            (hnearest format.leadingBit).1
        _ = q - format.leadingBit * 2 ^ format.unit q := by
          rw [abs_sub_comm, abs_of_nonneg (sub_nonneg.mpr hleading)]
        _ < q - format.magnitude other := by linarith
        _ ≤ |format.magnitude other - q| := by
          rw [abs_sub_comm]
          exact le_abs_self _
    exact ⟨hfurther.le, fun _ heq => absurd heq hfurther.ne'⟩

/-- Rounding gives the number nearest to a rational, unless that is too great. -/
theorem isNearest_rounded (hbits : 0 < format.fractionBits) {q : ℚ} (hq : 0 ≤ q)
    (h : format.rounded q < format.infinity) : format.IsNearest q (format.rounded q) := by
  rcases hq.eq_or_lt with rfl | hpos
  · have hzero : format.rounded 0 = 0 := if_pos rfl
    refine ⟨h, fun other _ => ?_, fun other _ _ _ => by rw [hzero]⟩
    rw [hzero, magnitude_zero, sub_zero, abs_zero]
    exact abs_nonneg _
  · refine ⟨h, fun other hother => (format.rounded_nearest hpos h hother).1,
      fun other hother hne heq => ?_⟩
    -- The pattern is even where its significand is.
    have heven := (format.rounded_nearest hpos h hother).2 hne heq
    obtain ⟨k, hpattern⟩ := (format.exists_rounded_eq hpos h).1
    have hmul : 2 ∣ k * format.leadingBit := by
      rw [leadingBit_eq]
      exact (dvd_pow_self 2 hbits.ne').mul_left k
    rw [hpattern]
    omega

/-- What is less than the greatest power of two in the format is not too great. -/
theorem rounded_lt_infinity {q : ℚ} (hq : 0 ≤ q) (hlog : Int.log 2 q < 1023) :
    binary64.rounded q < binary64.infinity := by
  rcases hq.eq_or_lt with rfl | hpos
  · exact (if_pos rfl).trans_lt (by decide)
  have hunit : (binary64.unit q - binary64.minExponent).toNat ≤ 2044 := by
    rw [unit, show binary64.minExponent = -1074 by decide,
      show binary64.fractionBits = 52 from rfl]
    omega
  calc binary64.rounded q
      ≤ roundedEven (q / 2 ^ binary64.unit q) +
          (binary64.unit q - binary64.minExponent).toNat * binary64.leadingBit := by
        rw [rounded, if_neg hpos.ne']
        exact min_le_right _ _
    _ ≤ 2 * binary64.leadingBit + 2044 * binary64.leadingBit :=
        Nat.add_le_add (binary64.roundedEven_unit_le hq) (Nat.mul_le_mul_right _ hunit)
    _ < binary64.infinity := by decide

end BinaryFormat

/-! ### Integers -/

theorem abs_signedRat_sub (negative : Bool) (q r : ℚ) :
    |signedRat negative q - signedRat negative r| = |q - r| := by
  cases negative
  · rfl
  · show |-q - -r| = |q - r|
    rw [neg_sub_neg, abs_sub_comm]

theorem abs_signedRat_not_sub {q r : ℚ} (negative : Bool) (hq : 0 ≤ q) (hr : 0 ≤ r) :
    |signedRat (!negative) q - signedRat negative r| = q + r := by
  cases negative
  · show |-q - r| = q + r
    rw [← neg_add', abs_neg, abs_of_nonneg (add_nonneg hq hr)]
  · show |q - -r| = q + r
    rw [sub_neg_eq_add, abs_of_nonneg (add_nonneg hq hr)]

/-- The nearest number to a rational of a sign has that sign: beyond zero no number is nearer than
zero is. -/
theorem BinaryFormat.IsNearest.signed {format : BinaryFormat} {r : ℚ} {pattern other : ℕ}
    (h : format.IsNearest r pattern) (hr : 0 ≤ r) (hother : other < format.infinity)
    (sign negative : Bool) :
    let q := signedRat sign (format.magnitude pattern)
    let q' := signedRat negative (format.magnitude other)
    |q - signedRat sign r| ≤ |q' - signedRat sign r| ∧
      (|q' - signedRat sign r| = |q - signedRat sign r| → q' = q ∨ pattern % 2 = 0) := by
  intro q q'
  have hq : |q - signedRat sign r| = |format.magnitude pattern - r| := abs_signedRat_sub sign _ _
  rw [hq]
  by_cases hnegative : negative = sign
  · subst hnegative
    have hq' : |q' - signedRat negative r| = |format.magnitude other - r| :=
      abs_signedRat_sub negative _ _
    rw [hq']
    refine ⟨h.le other hother, fun heq => ?_⟩
    rcases eq_or_ne other pattern with rfl | hne
    · exact .inl rfl
    · exact .inr (h.even other hother hne heq)
  · have hpos : 0 < format.infinity := Nat.zero_lt_of_lt h.lt_infinity
    have hzero : |format.magnitude 0 - r| = r := by
      rw [magnitude_zero, zero_sub, abs_neg, abs_of_nonneg hr]
    have hnearest := hzero ▸ h.le 0 hpos
    have hmagnitude : 0 ≤ format.magnitude other := by
      rw [magnitude]
      positivity
    have hq' : |q' - signedRat sign r| = format.magnitude other + r := by
      obtain rfl : negative = !sign := Bool.eq_not.mpr hnegative
      exact abs_signedRat_not_sub sign hmagnitude hr
    rw [hq']
    refine ⟨by linarith, fun heq => ?_⟩
    rcases eq_or_ne pattern 0 with rfl | hne
    · have hother' : format.magnitude other = 0 := by linarith
      left
      show signedRat negative (format.magnitude other) = signedRat sign (format.magnitude 0)
      rw [hother', magnitude_zero]
      simp [signedRat]
    · exact .inr (h.even 0 hpos hne.symm (by linarith))

open BinaryFormat (binary64)

theorem signedRat_natAbs (n : ℤ) : signedRat (decide (n < 0)) n.natAbs = n := by
  rw [signedRat, Nat.cast_natAbs]
  split_ifs with h
  · rw [abs_of_neg (of_decide_eq_true h)]
    push_cast
    ring
  · rw [abs_of_nonneg (by simpa using h)]

theorem IntegerType.natAbs_lt {t : IntegerType} (v : t.Value) : v.val.natAbs < 2 ^ 64 := by
  have hbounds : -(2 ^ 64) < t.low ∧ t.high < 2 ^ 64 := by cases t <;> decide
  have hlow := v.low_le
  have hhigh := v.le_high
  omega

theorem isNearest_nearest_natAbs {n : ℤ} (h : n.natAbs < 2 ^ 64) :
    binary64.IsNearest n.natAbs (binary64.nearest n.natAbs 1) := by
  have hlog : Int.log 2 (n.natAbs : ℚ) < 1023 := by
    rw [Int.log_natCast]
    have := Nat.log_lt_of_lt_pow' (by decide) h
    omega
  rw [BinaryFormat.nearest_eq_rounded _ _ one_pos, Nat.cast_one, div_one]
  exact binary64.isNearest_rounded (by decide) (Nat.cast_nonneg _)
    (BinaryFormat.rounded_lt_infinity (Nat.cast_nonneg _) hlog)

/-- An integer of a type widens to a number of its sign, and no number is nearer to it.  Where another
is as near, the significand is even. -/
theorem IntegerType.toFloat_nearest {t : IntegerType} (v : t.Value) :
    ∃ significand exponent,
      floatValue (toFloat v) = .finite (decide (v.val < 0)) significand exponent ∧
      ∀ (x : Float) (negative : Bool) (significand' : ℕ) (exponent' : ℤ),
        floatValue x = .finite negative significand' exponent' →
        let q := signedRat (decide (v.val < 0)) (significand * 2 ^ exponent)
        let q' := signedRat negative (significand' * 2 ^ exponent')
        |q - v.val| ≤ |q' - v.val| ∧
          (|q' - v.val| = |q - v.val| → q' = q ∨ significand % 2 = 0) := by
  have hnearest := isNearest_nearest_natAbs (natAbs_lt v)
  refine ⟨_, _, floatValue_floatOfPattern _ hnearest.lt_infinity, ?_⟩
  intro x negative m e hx q q'
  obtain ⟨other, hother, rfl, rfl⟩ := BinaryFormat.exists_pattern_of_value hx
  obtain ⟨hle, heven⟩ :=
    hnearest.signed (Nat.cast_nonneg _) hother (decide (v.val < 0)) negative
  rw [signedRat_natAbs] at hle heven
  refine ⟨hle, fun heq => (heven heq).imp_right fun hpattern => ?_⟩
  have hleading : binary64.leadingBit = 2 ^ 52 := by decide
  rw [BinaryFormat.significand, hleading]
  split_ifs <;> omega

/-- Halfway between two numbers, the one with the even significand. -/
example : floatOfInt (2 ^ 53 + 1) = floatOfInt (2 ^ 53) := by decide +kernel

/-! ### Exact numbers -/

/-- A number with a small significand is a number of the format. -/
theorem exists_magnitude_eq_mul {m : ℕ} {e : ℤ} (hm : m ≤ 2 ^ 52) (hlow : -1022 ≤ e)
    (hhigh : e ≤ 971) : ∃ pattern < binary64.infinity, binary64.magnitude pattern = m * 2 ^ e := by
  have hleading : binary64.leadingBit = 2 ^ 52 := by decide
  rcases Nat.eq_zero_or_pos m with rfl | hpos
  · exact ⟨0, by decide, by simp⟩
  have hlog : m.log2 < 53 := (Nat.log2_lt hpos.ne').mpr (by omega)
  obtain ⟨k, hk⟩ : ∃ k, m.log2 + k = 52 := ⟨52 - m.log2, by omega⟩
  have hle : 2 ^ 52 ≤ m * 2 ^ k := by
    rw [← hk, pow_add]
    exact Nat.mul_le_mul_right _ (Nat.log2_self_le hpos.ne')
  have hlt : m * 2 ^ k < 2 * 2 ^ 52 := by
    rw [← hk, pow_add, ← Nat.mul_assoc, ← pow_succ']
    exact Nat.mul_lt_mul_of_pos_right Nat.lt_log2_self (by positivity)
  obtain ⟨j, hj⟩ := Int.eq_ofNat_of_zero_le (show 0 ≤ e + 1074 - k by omega)
  have hexponent : binary64.minExponent + j = e - k := by
    rw [show binary64.minExponent = -1074 by decide]
    omega
  refine ⟨m * 2 ^ k + j * binary64.leadingBit, ?_, ?_⟩
  · rw [hleading, show binary64.infinity = 2047 * 2 ^ 52 by decide]
    omega
  · rw [binary64.magnitude_add_mul (.inl (hleading ▸ hle)) (hleading ▸ hlt), hexponent,
      zpow_sub₀ two_ne_zero, zpow_natCast]
    push_cast
    field_simp

theorem shiftLeft_div_shiftLeft (m : ℕ) (e : ℤ) :
    ((m <<< e.toNat : ℕ) : ℚ) / (1 <<< (-e).toNat : ℕ) = m * 2 ^ e := by
  rw [zpow_eq_div_toNat two_ne_zero, Nat.shiftLeft_eq, Nat.shiftLeft_eq]
  push_cast
  ring

theorem BinaryFormat.nearestScaled_eq_rounded (format : BinaryFormat) (m : ℕ) (e : ℤ) :
    format.nearestScaled m e = format.rounded (m * 2 ^ e) := by
  have hden : 0 < 1 <<< (-e).toNat := by
    rw [Nat.shiftLeft_eq]
    positivity
  rw [nearestScaled, nearest_eq_rounded _ _ hden, shiftLeft_div_shiftLeft]

/-- A number of 32 bits stands for the same when it is widened. -/
theorem extended?_widenFloat (x : Float32) :
    extended? (widenFloat x) = (float32Value x).extended? := by
  rw [widenFloat]
  cases hvalue : float32Value x with
  | nan | infinite => rw [extended?, floatValue_toFloat rfl]
  | finite negative m e =>
    obtain ⟨pattern, hlt, rfl, rfl⟩ := BinaryFormat.exists_pattern_of_value hvalue
    have hcanonical := BinaryFormat.binary32.canonical pattern
    have hsignificand : BinaryFormat.binary32.significand pattern ≤ 2 ^ 52 :=
      (hcanonical.significand_lt.trans_le (by decide)).le
    have hexponent : BinaryFormat.binary32.exponent pattern ≤ 971 := by
      rw [BinaryFormat.exponent, show BinaryFormat.binary32.leadingBit = 2 ^ 23 by decide,
        show BinaryFormat.binary32.minExponent = -149 by decide]
      rw [show BinaryFormat.binary32.infinity = 255 * 2 ^ 23 by decide] at hlt
      omega
    obtain ⟨widened, hwidened, hmagnitude⟩ := exists_magnitude_eq_mul hsignificand
      (le_trans (by decide) hcanonical.minExponent_le) hexponent
    rw [BinaryValue.toFloat, BinaryFormat.nearestScaled_eq_rounded, ← hmagnitude,
      binary64.rounded_magnitude hwidened, extended?_floatOfPattern negative hwidened, hmagnitude]
    rfl

end QuestFormula
