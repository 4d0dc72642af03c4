import QuestFormula.Proofs.Evaluator.Folding
import QuestFormula.Proofs.Number.Nearest

/-! The integers that rewards grant.  A formula result is first rounded to an integer, as a number of
its own format, and then cut off at the bounds of the integer type.  The first step is exact, since
what has a fraction is less than `2 ^ 52`, and every natural number up to that is a number of the
format; so both together round what the result stands for, a half away from zero.  Hence they keep
the order of the results. -/

namespace QuestFormula

open BinaryFormat (binary64)

/-! ### The nearest integer -/

/-- No integer is nearer, and none at the same distance is further from zero. -/
def NearestAway (q : ℚ) (n : ℤ) : Prop :=
  ∀ k : ℤ, |q - n| ≤ |q - k| ∧ (|q - n| = |q - k| → |k| ≤ |n|)

/-- The nearest integer, a half away from zero. -/
def roundedAway (q : ℚ) : ℤ := if q < 0 then -round (-q) else round q

theorem nearestAway_round {q : ℚ} (hq : 0 ≤ q) : NearestAway q (round q) := by
  refine fun k => ⟨round_le q k, fun heq => ?_⟩
  have hlt := sub_half_lt_round q
  have hnonneg : 0 ≤ round q := by
    rw [round_eq]
    positivity
  generalize round q = n at *
  rcases abs_eq_abs.mp heq with heq | heq
  · have hk : (k : ℚ) = n := by linarith
    rw [Int.cast_inj.mp hk]
  · -- The other integer lies as far on the other side.
    have hsum : 0 ≤ n + k := by exact_mod_cast (show (0 : ℚ) ≤ n + k by linarith)
    have hle : k < n + 1 := by exact_mod_cast (show (k : ℚ) < n + 1 by linarith)
    rw [abs_of_nonneg hnonneg]
    exact abs_le.mpr ⟨by omega, by omega⟩

theorem NearestAway.neg {q : ℚ} {n : ℤ} (h : NearestAway q n) : NearestAway (-q) (-n) := by
  intro k
  have hdistance (m : ℤ) : |-q - m| = |q - (-m : ℤ)| := by
    rw [← abs_neg]
    congr 1
    push_cast
    ring
  rw [hdistance, hdistance, neg_neg, abs_neg, ← abs_neg k]
  exact h (-k)

theorem nearestAway_roundedAway (q : ℚ) : NearestAway q (roundedAway q) := by
  rw [roundedAway]
  split_ifs with hneg
  · have h := (nearestAway_round (neg_nonneg.mpr hneg.le)).neg
    rwa [neg_neg] at h
  · exact nearestAway_round (not_lt.mp hneg)

/-- There is only one such integer. -/
theorem NearestAway.eq_roundedAway {q : ℚ} {n : ℤ} (h : NearestAway q n) : n = roundedAway q := by
  have h' := nearestAway_roundedAway q
  generalize roundedAway q = n' at *
  have hdistance : |q - n| = |q - n'| := le_antisymm (h n').1 (h' n).1
  have habs : |n| = |n'| := le_antisymm ((h' n).2 hdistance.symm) ((h n').2 hdistance)
  rcases abs_eq_abs.mp habs with heq | rfl
  · exact heq
  · -- Two opposite integers are at the same distance from zero alone, which is nearer itself.
    have hzero : q = 0 ∨ n' = 0 := by
      rcases abs_eq_abs.mp hdistance with heq | heq
      · right
        push_cast at heq
        have : (n' : ℚ) = 0 := by linarith
        exact_mod_cast this
      · left
        push_cast at heq
        linarith
    rcases hzero with rfl | rfl
    · have h0 := (h' 0).1
      simp only [Int.cast_zero, sub_zero, abs_zero, zero_sub, abs_neg] at h0
      have hn : (n' : ℚ) = 0 := abs_nonpos_iff.mp h0
      have hn : n' = 0 := by exact_mod_cast hn
      rw [hn, neg_zero]
    · exact neg_zero

theorem exists_round_eq {q : ℚ} (hq : 0 ≤ q) : ∃ n : ℕ, round q = n :=
  Int.eq_ofNat_of_zero_le (by
    rw [round_eq]
    positivity)

theorem round_mono {q r : ℚ} (h : q ≤ r) : round q ≤ round r := by
  rw [round_eq, round_eq]
  exact Int.floor_mono (by linarith)

theorem roundedAway_mono {q r : ℚ} (h : q ≤ r) : roundedAway q ≤ roundedAway r := by
  have hnonneg {s : ℚ} (hs : 0 ≤ s) : 0 ≤ round s := by
    obtain ⟨n, hn⟩ := exists_round_eq hs
    omega
  rw [roundedAway, roundedAway]
  split_ifs with hq hr hr
  · exact neg_le_neg (round_mono (neg_le_neg h))
  · exact (neg_nonpos.mpr (hnonneg (neg_nonneg.mpr hq.le))).trans (hnonneg (not_lt.mp hr))
  · exact absurd (h.trans_lt hr) hq
  · exact round_mono h

theorem roundedAway_signedRat (negative : Bool) {q : ℚ} (hq : 0 ≤ q) :
    roundedAway (signedRat negative q) = if negative then -round q else round q := by
  cases negative
  · exact if_neg (not_lt.mpr hq)
  · rcases hq.eq_or_lt with rfl | hpos
    · simp [signedRat, roundedAway]
    · rw [signedRat, if_pos rfl, roundedAway, if_pos (neg_lt_zero.mpr hpos), neg_neg, if_pos rfl]

theorem roundHalfUp_eq (num : ℕ) {den : ℕ} (hden : 0 < den) :
    (roundHalfUp num den : ℤ) = round ((num : ℚ) / den) := by
  have hden' : (den : ℚ) ≠ 0 := by exact_mod_cast hden.ne'
  have hquotient : (num : ℚ) / den + 1 / 2 = ((2 * num + den : ℕ) : ℚ) / (2 * den : ℕ) := by
    push_cast
    field_simp
  rw [round_eq, hquotient, ← Int.natCast_floor_eq_floor (by positivity), Nat.floor_div_eq_div,
    roundHalfUp]

/-! ### Rounding and cutting off -/

/-- With a fraction a number is less than `2 ^ 52`, and without one it is rounded to itself. -/
theorem exists_magnitude_eq_round {pattern : ℕ} (h : pattern < binary64.infinity) :
    ∃ rounded < binary64.infinity,
      binary64.magnitude rounded = round (binary64.magnitude pattern) := by
  have hcanonical := binary64.canonical pattern
  generalize hq : binary64.magnitude pattern = q
  rw [BinaryFormat.magnitude] at hq
  rcases lt_or_ge (binary64.exponent pattern) 0 with hneg | hnonneg
  · have hsignificand : (binary64.significand pattern : ℚ) < 2 ^ 53 := by
      exact_mod_cast hcanonical.significand_lt
    have hlt : q < 2 ^ 52 := by
      calc q = binary64.significand pattern * 2 ^ binary64.exponent pattern := hq.symm
        _ ≤ binary64.significand pattern * 2 ^ (-1 : ℤ) := by
          gcongr
          · exact one_le_two
          · omega
        _ < 2 ^ 53 * 2 ^ (-1 : ℤ) := by gcongr
        _ = 2 ^ 52 := by norm_num
    obtain ⟨n, hn⟩ := exists_round_eq (hq ▸ by positivity : 0 ≤ q)
    have hle := round_le_add_half q
    rw [hn] at hle ⊢
    have hn' : (n : ℚ) < (2 ^ 52 + 1 : ℕ) := by
      push_cast at hle ⊢
      linarith
    obtain ⟨rounded, hrounded, hvalue⟩ := exists_magnitude_eq_mul (e := 0)
      (Nat.le_of_lt_succ (by exact_mod_cast hn')) (by decide) (by decide)
    exact ⟨rounded, hrounded, by rw [hvalue, zpow_zero, mul_one, Int.cast_natCast]⟩
  · obtain ⟨k, hk⟩ := Int.eq_ofNat_of_zero_le hnonneg
    have hinteger : q = (binary64.significand pattern * 2 ^ k : ℕ) := by
      rw [← hq, hk, zpow_natCast]
      push_cast
      rfl
    refine ⟨pattern, h, ?_⟩
    rw [BinaryFormat.magnitude, hq, hinteger, round_natCast, Int.cast_natCast]

/-- A number is rounded within its format to the integer nearest to it. -/
theorem floatValue_roundFloat {x : Float} {negative : Bool} {significand : ℕ} {exponent : ℤ}
    (h : floatValue x = .finite negative significand exponent) :
    ∃ significand' exponent', floatValue (roundFloat x) = .finite negative significand' exponent' ∧
      (significand' : ℚ) * 2 ^ exponent' = round ((significand : ℚ) * 2 ^ exponent) := by
  obtain ⟨pattern, hlt, rfl, rfl⟩ := BinaryFormat.exists_pattern_of_value h
  obtain ⟨rounded, hrounded, hvalue⟩ := exists_magnitude_eq_round hlt
  rw [roundFloat, h]
  dsimp only
  rw [BinaryFormat.magnitude, BinaryFormat.magnitude] at hvalue
  generalize binary64.significand pattern = m at *
  generalize binary64.exponent pattern = e at *
  have hden : 0 < 1 <<< (-e).toNat := by
    rw [Nat.shiftLeft_eq]
    positivity
  have hnearest :
      binary64.nearest (roundHalfUp (m <<< e.toNat) (1 <<< (-e).toNat)) 1 = rounded := by
    have hmagnitude := roundHalfUp_eq (m <<< e.toNat) hden
    rw [shiftLeft_div_shiftLeft] at hmagnitude
    rw [BinaryFormat.nearest_eq_rounded _ _ one_pos, Nat.cast_one, div_one,
      ← BinaryFormat.rounded_magnitude _ hrounded]
    congr 1
    rw [BinaryFormat.magnitude, hvalue, ← hmagnitude, Int.cast_natCast]
  rw [hnearest]
  exact ⟨_, _, floatValue_floatOfPattern negative hrounded, hvalue⟩

/-- A natural number has nothing behind the point. -/
theorem shiftRight_of_eq {m n : ℕ} {e : ℤ} (h : (m : ℚ) * 2 ^ e = n) :
    (m <<< e.toNat) >>> (-e).toNat = n := by
  rw [zpow_eq_div_toNat two_ne_zero, mul_div_assoc', div_eq_iff (by positivity)] at h
  have hnat : m * 2 ^ e.toNat = n * 2 ^ (-e).toNat := by exact_mod_cast h
  rw [Nat.shiftLeft_eq, hnat, Nat.shiftRight_eq_div_pow, Nat.mul_div_cancel _ (by positivity)]

theorem roundFloat_of_not_finite {x : Float} (h : (floatValue x).isFinite = false) :
    roundFloat x = x := by
  rw [roundFloat]
  split
  · rename_i hvalue
    rw [hvalue] at h
    cases h
  · rfl

namespace IntegerType

variable (t : IntegerType) {x y : Float}

/-- The nearest integer within the bounds, a half away from zero. -/
def saturated : WithBot (WithTop ℚ) → t.Value
  | ⊥ => t.clamp t.low
  | (⊤ : WithTop ℚ) => t.clamp t.high
  | (q : ℚ) => t.clamp (roundedAway q)

theorem saturated_mono : Monotone fun a => (t.saturated a).val := by
  refine WithBot.monotone_iff.mpr ⟨WithTop.monotone_iff.mpr ⟨fun q r hle => ?_, fun q => ?_⟩,
    fun a => ?_⟩
  · exact max_le_max le_rfl (min_le_min (roundedAway_mono hle) le_rfl)
  · exact (t.saturated q).le_high.trans_eq (t.val_clamp_of_le t.low_le_high le_rfl).symm
  · exact (t.val_clamp_of_le le_rfl t.low_le_high).trans_le (t.saturated a).low_le

theorem ofFloat_of_nan (h : floatValue x = .nan) : t.ofFloat x = t.clamp 0 := by
  rw [ofFloat, roundFloat_of_not_finite (by rw [h]; rfl), truncate, h]

/-- Rounding and cutting off give the nearest integer to what the number stands for. -/
theorem ofFloat_of_extended {a : WithBot (WithTop ℚ)} (h : extended? x = some a) :
    t.ofFloat x = t.saturated a := by
  rw [extended?] at h
  cases hvalue : floatValue x with
  | nan =>
    rw [hvalue] at h
    cases h
  | infinite negative =>
    rw [hvalue] at h
    cases h
    rw [ofFloat, roundFloat_of_not_finite (by rw [hvalue]; rfl), truncate, hvalue]
    cases negative <;> rfl
  | finite negative m e =>
    rw [hvalue] at h
    cases h
    have hnonneg : (0 : ℚ) ≤ m * 2 ^ e := by positivity
    obtain ⟨m', e', hround, hmagnitude⟩ := floatValue_roundFloat hvalue
    obtain ⟨n, hn⟩ := exists_round_eq hnonneg
    rw [hn, Int.cast_natCast] at hmagnitude
    rw [ofFloat, truncate, hround]
    dsimp only
    rw [shiftRight_of_eq hmagnitude]
    show _ = t.clamp (roundedAway (signedRat negative (m * 2 ^ e)))
    rw [roundedAway_signedRat negative hnonneg, hn]

/-- A greater number never becomes a smaller integer. -/
theorem ofFloat_mono (h : x ≤ y) : (t.ofFloat x).val ≤ (t.ofFloat y).val := by
  obtain ⟨a, b, hx, hy, hle⟩ := float_le_iff.mp h
  rw [t.ofFloat_of_extended hx, t.ofFloat_of_extended hy]
  exact t.saturated_mono hle

end IntegerType

theorem Factory.evaluate_of_compileWith {S : StateType} {c : Catalog S} {R : RewardType}
    {formula : String} {made : Evaluator S} {savings : Code.Savings} {parameter : ParameterType}
    (h : compileWith c R formula = .ok (made, savings)) (hR : R.constructors = [parameter])
    (state : S.State) :
    made.evaluate state = ⟨R, parameter, parameter.ofFloat (made.evaluateRaw state)⟩ := by
  obtain ⟨e, bound, -, hresolve, hcompile⟩ := compileWith_eq_ok_iff.mp h
  obtain ⟨readers, parameter', -, hparameter, rfl⟩ := Catalog.compile_eq_ok hresolve hcompile
  obtain rfl := List.singleton_inj.mp (hR.symm.trans hparameter)
  rfl

/-- From any bits, a finite number becomes the integer nearest to it, a half away from zero, or the
bound beyond which that lies; an infinity becomes a bound, and what is not a number zero.  So a number
that is at least another never becomes a smaller integer, and neither does the reward for a formula
result. -/
theorem IntegerType.ofFloat_saturates (t : IntegerType) :
    (∀ bits : UInt64,
      let amount := (t.ofFloat (Float.ofBits bits)).val
      (∀ negative significand exponent,
        binary64.value bits.toNat = .finite negative significand exponent →
        let q := signedRat negative (significand * 2 ^ exponent)
        (∃ n, NearestAway q n) ∧ ∀ n, NearestAway q n → amount = max t.low (min n t.high)) ∧
      (∀ negative, binary64.value bits.toNat = .infinite negative →
        amount = if negative then t.low else t.high) ∧
      (binary64.value bits.toNat = .nan → amount = 0)) ∧
    (∀ x y : Float, x ≤ y → (t.ofFloat x).val ≤ (t.ofFloat y).val) ∧
    ∀ {S S' : StateType} (c : Catalog S) (c' : Catalog S') (R : RewardType)
      (formula formula' : String) (made : Evaluator S) (made' : Evaluator S')
      (savings savings' : Code.Savings), R.constructors = [.number (.integer t)] →
      Factory.compileWith c R formula = .ok (made, savings) →
      Factory.compileWith c' R formula' = .ok (made', savings') →
      ∀ state state', made.evaluateRaw state ≤ made'.evaluateRaw state' →
        ∃ amount amount' : t.Value, made.evaluate state = ⟨R, .number (.integer t), amount⟩ ∧
          made'.evaluate state' = ⟨R, .number (.integer t), amount'⟩ ∧ amount.val ≤ amount'.val := by
  refine ⟨fun bits => ?_, fun x y => t.ofFloat_mono,
    fun c c' R formula formula' made made' savings savings' hR h h' state state' hle =>
      ⟨_, _, Factory.evaluate_of_compileWith h hR state,
        Factory.evaluate_of_compileWith h' hR state', t.ofFloat_mono hle⟩⟩
  have hvalue := floatValue_ofBits bits
  refine ⟨fun negative m e h => ⟨⟨_, nearestAway_roundedAway _⟩, fun n hn => ?_⟩,
    fun negative h => ?_, fun h => ?_⟩
  · rw [t.ofFloat_of_extended (by rw [extended?, hvalue, h]; rfl), hn.eq_roundedAway]
    rfl
  · rw [t.ofFloat_of_extended (by rw [extended?, hvalue, h]; rfl)]
    cases negative
    · exact t.val_clamp_of_le t.low_le_high le_rfl
    · exact t.val_clamp_of_le le_rfl t.low_le_high
  · rw [t.ofFloat_of_nan (hvalue.trans h)]
    exact t.val_clamp_of_le t.low_le_zero t.zero_le_high

/-- The greatest number below one half, a half below zero, the first number beyond a type, both
infinities and what is not a number; and two constant formulas, of which the second has the greater
result. -/
theorem IntegerType.ofFloat_saturates_halves :
    (i8.ofFloat (Float.ofBits 0x3FDFFFFFFFFFFFFF)).val = 0 ∧
    (i8.ofFloat (Float.ofBits 0xC004000000000000)).val = -3 ∧
    (u8.ofFloat (Float.ofBits 0xC004000000000000)).val = 0 ∧
    (i64.ofFloat (Float.ofBits 0x43E0000000000000)).val = 2 ^ 63 - 1 ∧
    (i8.ofFloat (Float.ofBits 0x7FF0000000000000)).val = 127 ∧
    (i8.ofFloat (Float.ofBits 0xFFF0000000000000)).val = -128 ∧
    (i8.ofFloat (Float.ofBits 0xFFF0000000000001)).val = 0 ∧
    let points : RewardType := ⟨"Points", "Points", [.number (.integer .u8)], .literal⟩
    let hunt := Catalog.build huntState
    ∃ made made' savings savings', Factory.compileWith hunt points "1" = .ok (made, savings) ∧
      Factory.compileWith hunt points "3 / 2" = .ok (made', savings') ∧
      ∀ state, ∃ amount amount' : u8.Value,
        made.evaluate state = ⟨points, .number (.integer .u8), amount⟩ ∧
        made'.evaluate state = ⟨points, .number (.integer .u8), amount'⟩ ∧
        amount.val ≤ amount'.val := by
  have hbelow : NearestAway (signedRat false ((9007199254740991 : ℕ) * 2 ^ (-54 : ℤ))) 0 := by
    have h : roundedAway (signedRat false ((9007199254740991 : ℕ) * 2 ^ (-54 : ℤ))) = 0 := by
      norm_num [roundedAway, signedRat, round_eq]
    exact h ▸ nearestAway_roundedAway _
  have hhalf : NearestAway (signedRat true ((5629499534213120 : ℕ) * 2 ^ (-51 : ℤ))) (-3) := by
    have h : roundedAway (signedRat true ((5629499534213120 : ℕ) * 2 ^ (-51 : ℤ))) = -3 := by
      norm_num [roundedAway, signedRat, round_eq]
    exact h ▸ nearestAway_roundedAway _
  have hbeyond : NearestAway (signedRat false ((4503599627370496 : ℕ) * 2 ^ (11 : ℤ))) (2 ^ 63) := by
    have h : roundedAway (signedRat false ((4503599627370496 : ℕ) * 2 ^ (11 : ℤ))) = 2 ^ 63 := by
      norm_num [roundedAway, signedRat, round_eq]
    exact h ▸ nearestAway_roundedAway _
  obtain ⟨hi8, -, -⟩ := ofFloat_saturates i8
  obtain ⟨hu8, -, hreward⟩ := ofFloat_saturates u8
  obtain ⟨hi64, -, -⟩ := ofFloat_saturates i64
  refine ⟨((hi8 0x3FDFFFFFFFFFFFFF).1 _ _ _ (by decide)).2 0 hbelow,
    ((hi8 0xC004000000000000).1 _ _ _ (by decide)).2 (-3) hhalf,
    ((hu8 0xC004000000000000).1 _ _ _ (by decide)).2 (-3) hhalf,
    ((hi64 0x43E0000000000000).1 _ _ _ (by decide)).2 (2 ^ 63) hbeyond,
    (hi8 0x7FF0000000000000).2.1 false (by decide),
    (hi8 0xFFF0000000000000).2.1 true (by decide),
    (hi8 0xFFF0000000000001).2.2 (by decide), ?_⟩
  intro points hunt
  have hone : parse "1" = .ok (.literal (floatOfInt 1)) := by decide +kernel
  have hmore : parse "3 / 2" =
      .ok (.binary .div (.literal (floatOfInt 3)) (.literal (floatOfInt 2))) := by decide +kernel
  obtain ⟨made, savings, hmade, hvalue⟩ :=
    Factory.exists_compileWith_of_constant hunt hone rfl (R := points) rfl
  obtain ⟨made', savings', hmade', hvalue'⟩ :=
    Factory.exists_compileWith_of_constant hunt hmore rfl (R := points) rfl
  refine ⟨made, made', savings, savings', hmade, hmade', fun state => ?_⟩
  refine hreward hunt hunt points _ _ made made' savings savings' rfl hmade hmade' state state ?_
  rw [hvalue, hvalue']
  decide +kernel

end QuestFormula
