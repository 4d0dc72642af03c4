import QuestFormula.Number.Shortest
import QuestFormula.Proofs.Number.Rounding

/-! Decimals, as rational numbers.  The pattern nearest to a decimal is that nearest to its value, so
zeros at the end of the digits change nothing, and the shortest decimal of a number reads back as
that number: a candidate is taken only if it does, and the exact decimal always does.  Plain text
writes a decimal, and a decimal written out is plain text for its value. -/

namespace QuestFormula

namespace Decimal

/-- The number that a decimal stands for. -/
def value (d : Decimal) : ℚ := d.digits * 10 ^ d.exponent

theorem lt_pow_decimalLength (n : ℕ) : n < 10 ^ decimalLength n := by
  fun_induction decimalLength n with
  | case1 => simp
  | case2 n hn ih =>
    rw [pow_succ]
    omega

/-- Beyond `10 ^ 400` and below its inverse there are no numbers of the format. -/
theorem two_pow_le_ten_pow : (2 : ℚ) ^ 1075 ≤ 10 ^ 400 := by
  calc (2 : ℚ) ^ 1075 = (2 ^ 43) ^ 25 := by rw [← pow_mul]
    _ ≤ (10 ^ 16) ^ 25 := by
      gcongr
      norm_num
    _ = 10 ^ 400 := by rw [← pow_mul]

theorem rounded_eq_infinity {q : ℚ} (h : 10 ^ 400 ≤ q) :
    BinaryFormat.binary64.rounded q = BinaryFormat.binary64.infinity :=
  BinaryFormat.rounded_eq_infinity _ (by decide)
    (((pow_le_pow_right₀ one_le_two (by decide)).trans two_pow_le_ten_pow).trans h)

/-- The powers of ten at which no further one is computed lie beyond the numbers of the format. -/
theorem nearest_eq_rounded (d : Decimal) :
    d.nearest .binary64 = BinaryFormat.binary64.rounded d.value := by
  obtain ⟨digits, exponent⟩ := d
  rw [nearest, value]
  dsimp only
  split_ifs with hzero hgreat hsmall
  · simp [hzero, BinaryFormat.rounded]
  · have hdigits : (1 : ℚ) ≤ digits := by exact_mod_cast Nat.one_le_iff_ne_zero.mpr hzero
    refine (rounded_eq_infinity ?_).symm
    calc (10 : ℚ) ^ 400 = 10 ^ (400 : ℤ) := (zpow_natCast _ _).symm
      _ ≤ 10 ^ exponent := zpow_le_zpow_right₀ (by norm_num) hgreat.le
      _ ≤ digits * 10 ^ exponent := le_mul_of_one_le_left (by positivity) hdigits
  · refine (BinaryFormat.rounded_eq_zero _ (by positivity) ?_).symm
    have hdigits : (digits : ℚ) < 10 ^ (decimalLength digits : ℤ) := by
      rw [zpow_natCast]
      exact_mod_cast lt_pow_decimalLength digits
    calc (digits : ℚ) * 10 ^ exponent
        < 10 ^ (decimalLength digits : ℤ) * 10 ^ exponent := by gcongr
      _ = 10 ^ (decimalLength digits + exponent) := (zpow_add₀ (by norm_num) _ _).symm
      _ ≤ 10 ^ (-400 : ℤ) := zpow_le_zpow_right₀ (by norm_num) hsmall.le
      _ ≤ 2 ^ (-1075 : ℤ) := by
        rw [zpow_neg, zpow_neg]
        exact inv_anti₀ (by positivity) (by exact_mod_cast two_pow_le_ten_pow)
  · have hden : 0 < Nat.pow 10 (-exponent).toNat := Nat.pow_pos (by decide)
    rw [BinaryFormat.nearest_eq_rounded _ _ hden, zpow_eq_div_toNat (by norm_num), ← mul_div_assoc]
    simp only [Nat.pow_eq, Nat.cast_mul, Nat.cast_pow, Nat.cast_ofNat]

/-! ### The shortest decimal -/

theorem value_trimmed (digits : ℕ) (exponent : ℤ) :
    (trimmed digits exponent).value = digits * 10 ^ exponent := by
  fun_induction trimmed digits exponent with
  | case1 digits exponent h ih =>
    have hdigits : digits / 10 * 10 = digits := Nat.div_mul_cancel (Nat.dvd_of_mod_eq_zero h.2)
    rw [ih, zpow_add_one₀ (by norm_num), mul_comm _ (10 : ℚ), ← mul_assoc]
    congr 1
    exact_mod_cast hdigits
  | case2 digits exponent h => rfl

theorem value_exact (significand : ℕ) (exponent : ℤ) :
    (exact significand exponent).value = significand * 2 ^ exponent := by
  rw [exact, value_trimmed, Nat.shiftLeft_eq]
  rcases le_total 0 exponent with h | h
  · obtain ⟨n, rfl⟩ := Int.eq_ofNat_of_zero_le h
    simp
  · obtain ⟨n, rfl⟩ := Int.exists_eq_neg_ofNat h
    have hpow : (10 : ℚ) ^ n = 5 ^ n * 2 ^ n := by rw [← mul_pow]; norm_num
    rw [min_eq_left h]
    simp only [Int.toNat_neg_natCast, pow_zero, mul_one, neg_neg, Int.toNat_natCast, Nat.pow_eq,
      Nat.cast_mul, Nat.cast_pow, Nat.cast_ofNat, zpow_neg, zpow_natCast, hpow]
    field_simp

theorem nearest_of_onGrid? {format : BinaryFormat} {pattern num den : ℕ} {exponent : ℤ}
    {d : Decimal} (h : onGrid? format pattern num den exponent = some d) :
    d.nearest format = pattern := by
  simp only [onGrid?] at h
  split at h
  · rename_i hbelow habove
    split_ifs at h
    · cases h
      exact of_decide_eq_true hbelow
    · cases h
      exact of_decide_eq_true habove
  · cases h
    exact of_decide_eq_true ‹_›
  · cases h
    exact of_decide_eq_true ‹_›
  · cases h

/-- The shortest decimal of a finite number reads back as the number. -/
theorem nearest_shortest {pattern : ℕ} (h : pattern < BinaryFormat.binary64.infinity) :
    (shortest .binary64 pattern).nearest .binary64 = pattern := by
  simp only [shortest]
  split
  · rename_i d hd
    obtain ⟨n, -, hgrid⟩ := List.exists_of_findSome?_eq_some hd
    rw [nearest_eq_rounded, value_trimmed, ← nearest_of_onGrid? hgrid, nearest_eq_rounded]
    rfl
  · rw [nearest_eq_rounded, value_exact]
    exact BinaryFormat.rounded_magnitude _ h

end Decimal

/-! ### Plain text -/

/-- The text is a plain literal, digits or digits with a point between them, and writes the
decimal. -/
inductive PlainText : List Char → Decimal → Prop
  | whole {digits : List Char} (ne_nil : digits ≠ []) (digits_isDigit : ∀ c ∈ digits, c.isDigit) :
      PlainText digits (.ofDigits digits [] 0)
  | point {whole fraction : List Char} (whole_ne_nil : whole ≠ [])
      (whole_isDigit : ∀ c ∈ whole, c.isDigit) (fraction_ne_nil : fraction ≠ [])
      (fraction_isDigit : ∀ c ∈ fraction, c.isDigit) :
      PlainText (whole ++ '.' :: fraction) (.ofDigits whole fraction 0)

/-- A text is read as a plain literal exactly if it is one. -/
theorem readLiteral?_eq_some_iff {text : List Char} {x : Float} :
    readLiteral? text = some x ↔ ∃ d, PlainText text d ∧ d.toFloat false = x := by
  constructor
  · intro h
    have htext := List.takeWhile_append_dropWhile (p := Char.isDigit) (l := text)
    have hdigits : ∀ c ∈ text.takeWhile Char.isDigit, c.isDigit := fun c =>
      List.mem_takeWhile_imp
    rw [readLiteral?] at h
    generalize text.takeWhile Char.isDigit = whole at h htext hdigits
    generalize text.dropWhile Char.isDigit = rest at h htext
    subst htext
    split_ifs at h with hwhole
    split at h
    · cases h
      rw [List.append_nil]
      exact ⟨_, .whole hwhole hdigits, rfl⟩
    · split_ifs at h with hfraction
      cases h
      exact ⟨_, .point hwhole hdigits hfraction.1 (List.all_eq_true.mp hfraction.2), rfl⟩
    · cases h
  · rintro ⟨d, h, rfl⟩
    cases h with
    | whole hne hdigits =>
      rw [readLiteral?, List.takeWhile_eq_self_iff.mpr hdigits, List.dropWhile_eq_nil_iff.mpr hdigits]
      exact if_neg hne
    | point hwhole hwhole' hfraction hfraction' =>
      rw [readLiteral?, List.takeWhile_append_of_pos hwhole', List.dropWhile_append_of_pos hwhole']
      simp only [List.takeWhile_cons_of_neg, List.dropWhile_cons_of_neg, Bool.not_eq_true,
        Char.reduceIsDigit, List.append_nil]
      rw [if_neg hwhole, if_pos ⟨hfraction, List.all_eq_true.mpr hfraction'⟩]

theorem isDigit_of_mem_zeros {n : ℕ} : ∀ c ∈ List.replicate n '0', c.isDigit := by
  intro c hc
  rw [List.eq_of_mem_replicate hc]
  rfl

namespace Decimal

/-- Zeros in front of the digits of a number, so that there is one before the point. -/
theorem padded_spec (digits places : ℕ) :
    let text := List.replicate (places + 1 - (Nat.toDigits 10 digits).length) '0' ++
      Nat.toDigits 10 digits
    (∀ c ∈ text, c.isDigit) ∧ places + 1 ≤ text.length ∧ Nat.ofDigitChars 10 text 0 = digits := by
  refine ⟨fun c hc => ?_, ?_, ?_⟩
  · exact (List.mem_append.mp hc).elim (isDigit_of_mem_zeros c)
      (Nat.isDigit_of_mem_toDigits (by decide) (by decide))
  · rw [List.length_append, List.length_replicate]
    omega
  · simp [Nat.ofDigitChars_append]

/-- A decimal written out is a plain literal for its value. -/
theorem exists_plainText_positional (d : Decimal) :
    ∃ d', PlainText d.positional d' ∧ d'.value = d.value := by
  obtain ⟨digits, exponent⟩ := d
  rw [positional]
  dsimp only
  split_ifs with hexponent hzero
  · refine ⟨_, .whole (List.cons_ne_nil _ _) (isDigit_of_mem_zeros (n := 1)), ?_⟩
    simp [value, ofDigits, hzero, Nat.ofDigitChars_cons]
  · obtain ⟨n, rfl⟩ := Int.eq_ofNat_of_zero_le hexponent
    refine ⟨_, .whole (by simp) fun c hc => ?_, ?_⟩
    · exact (List.mem_append.mp hc).elim (Nat.isDigit_of_mem_toDigits (by decide) (by decide))
        (isDigit_of_mem_zeros c)
    · simp [value, ofDigits, Nat.ofDigitChars_append, mul_comm]
  · obtain ⟨hdigits, hlength, hvalue⟩ := padded_spec digits (-exponent).toNat
    generalize List.replicate ((-exponent).toNat + 1 - (Nat.toDigits 10 digits).length) '0' ++
      Nat.toDigits 10 digits = padded at hdigits hlength hvalue
    refine ⟨_, .point (List.ne_nil_of_length_pos ?_)
      (fun c hc => hdigits c (List.mem_of_mem_take hc)) (List.ne_nil_of_length_pos ?_)
      fun c hc => hdigits c (List.mem_of_mem_drop hc), ?_⟩
    · rw [List.length_take]
      omega
    · rw [List.length_drop]
      omega
    · have hpower : (0 : ℤ) - ((padded.length - (padded.length - (-exponent).toNat) : ℕ) : ℤ) =
          exponent := by omega
      rw [ofDigits, List.take_append_drop, hvalue, List.length_drop, hpower]

end Decimal

/-- The digits of a finite number are a plain literal for it. -/
theorem exists_plainText_magnitudeText {pattern : ℕ}
    (h : pattern < BinaryFormat.binary64.infinity) :
    ∃ d, PlainText (magnitudeText .binary64 pattern) d ∧ d.nearest .binary64 = pattern := by
  rw [magnitudeText]
  split_ifs with hzero
  · exact ⟨_, .whole (List.cons_ne_nil _ _) (isDigit_of_mem_zeros (n := 1)), hzero.symm⟩
  · obtain ⟨d, hd, hvalue⟩ := (Decimal.shortest .binary64 pattern).exists_plainText_positional
    refine ⟨d, hd, ?_⟩
    rw [Decimal.nearest_eq_rounded, hvalue, ← Decimal.nearest_eq_rounded]
    exact Decimal.nearest_shortest h

end QuestFormula
