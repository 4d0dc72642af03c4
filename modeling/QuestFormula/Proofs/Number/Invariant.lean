import QuestFormula.Proofs.Evaluator.Folding
import QuestFormula.Proofs.Formula.Display
import QuestFormula.Proofs.Number.Order
import QuestFormula.State.Member

/-! The text of a result, read back.  It is digits with a sign before them, or a word for what is
not finite, and there are two readers: a text member takes the sign as a part of the number and
knows the words, and a formula takes it for an operation on what follows.  Both come to the number
that was written, except that zero has no sign in its text; so numbers of one text are equal. -/

namespace QuestFormula

/-- The number, with zero for negative zero. -/
def unsignedZero (x : Float) : Float :=
  if x = floatOfPattern true 0 then floatOfPattern false 0 else x

theorem unsignedZero_zero (negative : Bool) :
    unsignedZero (floatOfPattern negative 0) = floatOfPattern false 0 := by
  cases negative with
  | true => exact if_pos rfl
  | false => exact ite_self _

theorem unsignedZero_eq_self {x : Float}
    (h : ∀ exponent, floatValue x ≠ .finite true 0 exponent) : unsignedZero x = x := by
  refine if_neg fun hzero => ?_
  rw [hzero] at h
  exact h _ (floatValue_floatOfPattern true (by decide))

/-- Digits, with a minus before them if the number has the sign. -/
def signedText (negative : Bool) (digits : List Char) : List Char :=
  if negative then '-' :: digits else digits

/-! ### What is written -/

theorem significand_eq_zero_iff (format : BinaryFormat) (pattern : ℕ) :
    format.significand pattern = 0 ↔ pattern = 0 := by
  have hpos := format.leadingBit_pos
  rw [BinaryFormat.significand]
  split_ifs with h
  · rfl
  · omega

/-- A finite number by its sign and its pattern, which its text is written from. -/
theorem exists_eq_floatOfPattern {x : Float} (h : (floatValue x).isFinite) :
    ∃ negative, ∃ pattern < BinaryFormat.binary64.infinity, x = floatOfPattern negative pattern ∧
      displayFloat x = String.ofList (signedText negative (magnitudeText .binary64 pattern)) := by
  cases hvalue : floatValue x with
  | nan | infinite =>
    rw [hvalue] at h
    cases h
  | finite negative significand exponent =>
    have hlt := lt_infinity_of_floatValue hvalue
    refine ⟨negative, _, hlt, floatValue_injective ?_, ?_⟩
    · rw [floatValue_floatOfPattern _ hlt, hvalue]
      rw [floatValue, BinaryFormat.value, if_neg (Nat.lt_asymm hlt), if_neg hlt.ne] at hvalue
      cases hvalue
      rfl
    · rw [floatValue] at hvalue
      rw [displayFloat, BinaryFormat.display, hvalue]
      rfl

/-- The text of a finite number is its digits with its sign, which is lost for zero. -/
theorem exists_invariantText {x : Float} (h : (floatValue x).isFinite) :
    ∃ negative, ∃ pattern < BinaryFormat.binary64.infinity,
      unsignedZero x = floatOfPattern negative pattern ∧
      (invariantText x).toList = signedText negative (magnitudeText .binary64 pattern) := by
  obtain ⟨negative, pattern, hlt, hx, htext⟩ := exists_eq_floatOfPattern h
  have hvalue := floatValue_floatOfPattern negative hlt
  rw [← hx] at hvalue
  by_cases hzero : pattern = 0
  · subst hzero
    refine ⟨false, 0, hlt, hx ▸ unsignedZero_zero negative, ?_⟩
    rw [invariantText, hvalue]
    dsimp only
    rw [if_pos ((significand_eq_zero_iff _ _).mpr rfl)]
    rfl
  · refine ⟨negative, pattern, hlt, ?_, ?_⟩
    · refine (unsignedZero_eq_self fun exponent hneg => ?_).trans hx
      rw [hvalue] at hneg
      exact hzero ((significand_eq_zero_iff _ _).mp (BinaryValue.finite.inj hneg).2.1)
    · rw [invariantText, hvalue]
      dsimp only
      rw [if_neg (mt (significand_eq_zero_iff _ _).mp hzero), htext, String.toList_ofList]

/-! ### Read as a number -/

theorem trimBlank_eq_self {text : List Char} (h : ∀ c ∈ text, isBlank c = false) :
    trimBlank text = text := by
  have hkeeps {l : List Char} (hl : ∀ c ∈ l, isBlank c = false) : l.dropWhile isBlank = l := by
    cases l with
    | nil => rfl
    | cons c l =>
      exact List.dropWhile_cons_of_neg (Bool.eq_false_iff.mp (hl c List.mem_cons_self))
  rw [trimBlank, hkeeps h, hkeeps fun c hc => h c (List.mem_reverse.mp hc), List.reverse_reverse]

section PlainText

variable {text : List Char} {d : Decimal}

theorem toLower_of_isDigit {c : Char} (h : c.isDigit) : c.toLower = c := by
  rw [Char.toLower, dif_neg]
  simp only [Char.isDigit, Bool.and_eq_true, decide_eq_true_eq, ge_iff_le,
    UInt32.le_iff_toNat_le] at h ⊢
  change 48 ≤ c.toNat ∧ c.toNat ≤ 57 at h
  change ¬(65 ≤ c.toNat ∧ c.toNat ≤ 90)
  omega

/-- A plain literal begins with a digit, and no word does. -/
theorem PlainText.toLower_ne (h : PlainText text d) (word : String) {c : Char} {rest : List Char}
    (hword : word.toList = c :: rest) (hc : c.isDigit = false) :
    String.ofList (text.map Char.toLower) ≠ word := by
  obtain ⟨first, tail, rfl, hfirst⟩ := h.exists_first
  rintro rfl
  rw [String.toList_ofList, List.map_cons, toLower_of_isDigit hfirst] at hword
  rw [(List.cons.inj hword).1, hc] at hfirst
  cases hfirst

theorem PlainText.read? (h : PlainText text d) : Decimal.read? text = some d := by
  cases h with
  | whole hne hdigits =>
    rw [Decimal.read?, List.takeWhile_eq_self_iff.mpr hdigits,
      List.dropWhile_eq_nil_iff.mpr hdigits]
    exact if_neg fun hnil => hne hnil.1
  | point hwhole hwhole' hfraction hfraction' =>
    rw [Decimal.read?, List.takeWhile_append_of_pos hwhole', List.dropWhile_append_of_pos hwhole']
    simp [hwhole, List.takeWhile_eq_self_iff.mpr hfraction',
      List.dropWhile_eq_nil_iff.mpr hfraction', Decimal.readPower?]

theorem PlainText.readUnsigned? (h : PlainText text d) (negative : Bool) :
    readUnsigned? negative text = some (d.toFloat negative) := by
  have hinf := h.toLower_ne "inf" rfl rfl
  have hinfinity := h.toLower_ne "infinity" rfl rfl
  have hnan := h.toLower_ne "nan" rfl rfl
  rw [QuestFormula.readUnsigned?, if_neg (not_or.mpr ⟨hinf, hinfinity⟩), if_neg hnan, h.read?]
  rfl

/-- The sign before a plain literal is that of the number. -/
theorem PlainText.readNumber? (h : PlainText text d) (negative : Bool) :
    readNumber? (signedText negative text) = some (d.toFloat negative) := by
  cases negative with
  | true => exact h.readUnsigned? true
  | false =>
    have hread := h.readUnsigned? false
    obtain ⟨first, tail, rfl, hfirst⟩ := h.exists_first
    show QuestFormula.readNumber? (first :: tail) = _
    rw [QuestFormula.readNumber?.eq_def]
    split
    · rename_i heq
      obtain ⟨rfl, -⟩ := List.cons.inj heq
      cases hfirst
    · rename_i heq
      obtain ⟨rfl, -⟩ := List.cons.inj heq
      cases hfirst
    · exact hread

theorem PlainText.isBlank_eq_false (h : PlainText text d) (negative : Bool) :
    ∀ c ∈ signedText negative text, isBlank c = false := by
  have htext : ∀ c ∈ text, isBlank c = false := fun c hc =>
    isBlank_of_isLiteralChar (h.isLiteralChar c hc)
  cases negative with
  | true => exact List.forall_mem_cons.mpr ⟨rfl, htext⟩
  | false => exact htext

/-! ### Read as a formula -/

/-- A minus before a plain literal is the operation. -/
theorem PlainText.exists_parse (h : PlainText text d) (negative : Bool) {formula : String}
    (hformula : formula.toList = signedText negative text) :
    ∃ e, parse formula = .ok e ∧
      e.constant? = some (if negative then -d.toFloat false else d.toFloat false) := by
  cases negative with
  | true =>
    have hlexes := (Lexes.number h 1).symbol (c := '-') rfl
    rw [show '-' :: text = formula.toList from hformula.symm] at hlexes
    exact ⟨_, hlexes.parse (.factor (.unary (.minus _ (.primary (.number _ _))))), rfl⟩
  | false =>
    have hlexes := Lexes.number h 0
    rw [show text = formula.toList from hformula.symm] at hlexes
    exact ⟨_, hlexes.parse (.factor (.unary (.primary (.number _ _)))), rfl⟩

end PlainText

/-! ### The text of a result -/

theorem textToFloat_nan : ReadableType.textToFloat "NaN" = BinaryValue.nan.toFloat := by
  decide +kernel

theorem textToFloat_infinity (negative : Bool) :
    ReadableType.textToFloat (if negative then "-Infinity" else "Infinity") =
      (BinaryValue.infinite negative).toFloat := by
  cases negative <;> decide +kernel

/-- A text member reads the number back, whether or not it is finite. -/
theorem textToFloat_invariantText (x : Float) :
    ReadableType.textToFloat (invariantText x) = unsignedZero x := by
  cases hvalue : floatValue x with
  | nan =>
    rw [unsignedZero_eq_self (by simp [hvalue]), invariantText, hvalue]
    exact textToFloat_nan.trans (floatValue_injective ((floatValue_toFloat rfl).trans hvalue.symm))
  | infinite negative =>
    rw [unsignedZero_eq_self (by simp [hvalue]), invariantText, hvalue]
    exact (textToFloat_infinity negative).trans
      (floatValue_injective ((floatValue_toFloat rfl).trans hvalue.symm))
  | finite =>
    have hfinite : (floatValue x).isFinite := by
      rw [hvalue]
      rfl
    obtain ⟨negative, pattern, hlt, hx, htext⟩ := exists_invariantText hfinite
    obtain ⟨d, hd, hnearest⟩ := exists_plainText_magnitudeText hlt
    rw [ReadableType.textToFloat, htext, trimBlank_eq_self (hd.isBlank_eq_false negative),
      hd.readNumber?, hx, Option.getD_some, Decimal.toFloat, hnearest]

/-- A formula of the text of a finite number is a constant, which is the number. -/
theorem exists_parse_invariantText {x : Float} (h : (floatValue x).isFinite) :
    ∃ e, parse (invariantText x) = .ok e ∧ e.constant? = some (unsignedZero x) := by
  obtain ⟨negative, pattern, hlt, hx, htext⟩ := exists_invariantText h
  obtain ⟨d, hd, hnearest⟩ := exists_plainText_magnitudeText hlt
  obtain ⟨e, hparse, hconstant⟩ := hd.exists_parse negative htext
  refine ⟨e, hparse, hconstant.trans ?_⟩
  rw [hx, Decimal.toFloat, hnearest]
  cases negative with
  | true => rw [if_pos rfl, neg_floatOfPattern hlt]
  | false => rfl

/-! ### Numbers of one text -/

theorem signedRat_inj {negative negative' : Bool} {q q' : ℚ} (hq : 0 ≤ q) (hq' : 0 ≤ q')
    (h : signedRat negative q = signedRat negative' q') :
    q = q' ∧ (q ≠ 0 → negative = negative') := by
  cases negative <;> cases negative' <;>
    simp only [signedRat, if_true, Bool.false_eq_true, if_false, neg_inj] at h
  · exact ⟨h, fun _ => rfl⟩
  · exact ⟨by linarith, fun hne => absurd (by linarith) hne⟩
  · exact ⟨by linarith, fun hne => absurd (by linarith) hne⟩
  · exact ⟨h, fun _ => rfl⟩

theorem extended?_unsignedZero (x : Float) : extended? (unsignedZero x) = extended? x := by
  rw [unsignedZero]
  split_ifs with hzero
  · rw [hzero, extended?_floatOfPattern _ (by decide), extended?_floatOfPattern _ (by decide)]
    simp [BinaryFormat.magnitude, (significand_eq_zero_iff _ _).mpr rfl, signedRat]
  · rfl

/-- Numbers that stand for the same are alike but for the sign of zero. -/
theorem unsignedZero_eq_of_floatOfPattern {negative negative' : Bool} {pattern pattern' : ℕ}
    (hlt : pattern < BinaryFormat.binary64.infinity)
    (hlt' : pattern' < BinaryFormat.binary64.infinity)
    (h : extended? (floatOfPattern negative pattern) =
      extended? (floatOfPattern negative' pattern')) :
    unsignedZero (floatOfPattern negative pattern) =
      unsignedZero (floatOfPattern negative' pattern') := by
  have hnonneg (p : ℕ) : 0 ≤ BinaryFormat.binary64.magnitude p := by
    rw [BinaryFormat.magnitude]
    positivity
  rw [extended?_floatOfPattern _ hlt, extended?_floatOfPattern _ hlt', Option.some.injEq,
    WithBot.coe_inj, WithTop.coe_inj] at h
  obtain ⟨hmagnitude, hsign⟩ := signedRat_inj (hnonneg _) (hnonneg _) h
  have hpattern : pattern = pattern' := by
    rw [← BinaryFormat.rounded_magnitude _ hlt, hmagnitude, BinaryFormat.rounded_magnitude _ hlt']
  subst hpattern
  by_cases hzero : pattern = 0
  · rw [hzero, unsignedZero_zero, unsignedZero_zero]
  · have hsignificand := mt (significand_eq_zero_iff .binary64 pattern).mp hzero
    rw [hsign (by rw [BinaryFormat.magnitude]; positivity)]

/-- What is not finite stands for nothing else. -/
theorem BinaryValue.eq_of_extended? {value value' : BinaryValue} (h : value.isFinite = false)
    (heq : value.extended? = value'.extended?) : value = value' := by
  cases value with
  | nan =>
    cases value' with
    | nan => rfl
    | infinite | finite => cases heq
  | infinite negative =>
    cases value' with
    | nan => cases heq
    | infinite negative' => cases negative <;> cases negative' <;> first | rfl | cases heq
    | finite => cases negative <;> cases heq
  | finite => cases h

theorem unsignedZero_eq_iff {x y : Float} :
    unsignedZero x = unsignedZero y ↔ extended? x = extended? y := by
  refine ⟨fun h => by rw [← extended?_unsignedZero, h, extended?_unsignedZero], fun h => ?_⟩
  cases hx : (floatValue x).isFinite with
  | false => rw [floatValue_injective (BinaryValue.eq_of_extended? hx h)]
  | true =>
    cases hy : (floatValue y).isFinite with
    | false => rw [floatValue_injective (BinaryValue.eq_of_extended? hy h.symm)]
    | true =>
      obtain ⟨negative, pattern, hlt, rfl, -⟩ := exists_eq_floatOfPattern hx
      obtain ⟨negative', pattern', hlt', rfl, -⟩ := exists_eq_floatOfPattern hy
      exact unsignedZero_eq_of_floatOfPattern hlt hlt' h

theorem extended?_eq_none_iff {x : Float} : extended? x = none ↔ floatValue x = .nan := by
  rw [extended?]
  cases floatValue x with
  | nan => exact ⟨fun _ => rfl, fun _ => rfl⟩
  | infinite | finite =>
    constructor
    all_goals
      intro h
      cases h

theorem extended?_eq_iff {x y : Float} : extended? x = extended? y ↔
    (x == y) = true ∨ floatValue x = .nan ∧ floatValue y = .nan := by
  rw [float_beq_iff, ← extended?_eq_none_iff, ← extended?_eq_none_iff]
  cases extended? x with
  | none => simp [eq_comm]
  | some a => simp [eq_comm]

theorem invariantText_unsignedZero (x : Float) :
    invariantText (unsignedZero x) = invariantText x := by
  rw [unsignedZero]
  split_ifs with hzero
  · rw [hzero]
    decide +kernel
  · rfl

/-- The text of a result is read back as the result, by a text member and, if the result is finite,
by a formula without names; only the sign of zero is lost, so two results of one text are equal or
neither is a number. -/
theorem invariantText_reads_back (x : Float) :
    ReadableType.reduce .text (invariantText x) = unsignedZero x ∧
    ((floatValue x).isFinite → ∃ e, parse (invariantText x) = .ok e ∧ e.variableNames = [] ∧
      e.constant? = some (unsignedZero x)) ∧
    ∀ y, invariantText x = invariantText y ↔
      (x == y) = true ∨ floatValue x = .nan ∧ floatValue y = .nan := by
  refine ⟨textToFloat_invariantText x, fun h => ?_, fun y => ?_⟩
  · obtain ⟨e, hparse, hconstant⟩ := exists_parse_invariantText h
    exact ⟨e, hparse, e.exists_constant?_iff.mp ⟨_, hconstant⟩, hconstant⟩
  · rw [← extended?_eq_iff, ← unsignedZero_eq_iff]
    refine ⟨fun h => ?_, fun h => ?_⟩
    · rw [← textToFloat_invariantText, h, textToFloat_invariantText]
    · rw [← invariantText_unsignedZero, h, invariantText_unsignedZero]

/-- Half below zero, and the zero below zero. -/
theorem invariantText_reads_back_signs :
    (∃ e, parse (invariantText (floatOfPattern true 0x3fe0000000000000)) = .ok e ∧
      e.constant? = some (floatOfPattern true 0x3fe0000000000000)) ∧
    ReadableType.reduce .text (invariantText (floatOfPattern true 0)) = floatOfPattern false 0 := by
  obtain ⟨e, hparse, -, hconstant⟩ :=
    (invariantText_reads_back (floatOfPattern true 0x3fe0000000000000)).2.1 (by decide +kernel)
  refine ⟨⟨e, hparse, hconstant.trans (by decide +kernel)⟩, ?_⟩
  exact (invariantText_reads_back (floatOfPattern true 0)).1.trans (unsignedZero_zero true)

end QuestFormula
