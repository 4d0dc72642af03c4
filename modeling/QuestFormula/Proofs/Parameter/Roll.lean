import Mathlib
import QuestFormula.Parameter.Roll

/-! Rolls of quest parameters.  A word is passed over until one is within the zone, and the high half
of its product is below the size of the range whichever that is; so an integer lies between both ends
of its range, and the index of a choice is that of one of its values.  A roll leaves a parameter open
only if it is a choice that no word can settle: one without values, or one that has an index already,
though beyond its values. -/

namespace QuestFormula

theorem WordSource.drawScaled_lt {words size : ℕ} (hwords : 0 < words) (hsize : 0 < size)
    (zone drawn : ℕ) (pending : List UInt64) :
    (drawScaled words size zone drawn pending).1 < size := by
  induction pending generalizing drawn with
  | nil => exact hsize
  | cons word rest ih =>
    rw [drawScaled]
    split_ifs
    · rw [Nat.div_lt_iff_lt_mul hwords, Nat.mul_comm]
      exact Nat.mul_lt_mul_of_pos_left (Nat.mod_lt _ hwords) hsize
    · exact ih (drawn + 1)

namespace IntegerType

variable (t : IntegerType)

theorem words_pos : 0 < t.words := by
  rw [words, Nat.shiftLeft_eq]
  positivity

theorem size_eq : (t.size : ℤ) = t.high - t.low + 1 := by
  cases t <;> decide

theorem val_wrap_of_mem {n : ℤ} (hlow : t.low ≤ n) (hhigh : n ≤ t.high) : (t.wrap n).val = n := by
  have hmod : (if t.isSigned then n.bmod t.size else n % t.size) = n := by
    rw [low] at hlow
    rw [high] at hhigh
    split_ifs at hlow hhigh ⊢
    · exact Int.bmod_eq_of_le (by omega) (by omega)
    · exact Int.emod_eq_of_lt hlow (by omega)
  rw [wrap, hmod, t.val_clamp_of_le hlow hhigh]

/-- A value from a range lies between its ends. -/
theorem roll_mem {low high : t.Value} (hle : low.val ≤ high.val) (source : WordSource) :
    low.val ≤ (t.roll low high source).1.val ∧ (t.roll low high source).1.val ≤ high.val := by
  have hsize := t.size_eq
  have hlow := low.low_le
  have hhigh := high.le_high
  rw [roll]
  dsimp only
  rcases lt_or_eq_of_le (show high.val - low.val + 1 ≤ t.size by omega) with hlt | heq
  · have hcount : (high.val - low.val + 1) % t.size = high.val - low.val + 1 :=
      Int.emod_eq_of_lt (by omega) hlt
    rw [hcount, if_neg (by omega)]
    dsimp only
    generalize hdrawn : WordSource.drawScaled t.words (high.val - low.val + 1).toNat
      (t.zone (high.val - low.val + 1).toNat) source.drawn source.pending = drawn
    have hoffset : drawn.1 < (high.val - low.val + 1).toNat := by
      rw [← hdrawn]
      exact WordSource.drawScaled_lt t.words_pos (by omega) _ _ _
    rw [t.val_wrap_of_mem (by omega) (by omega)]
    omega
  · -- The range is that of the type, and any word gives one of its values.
    rw [heq, Int.emod_self, Int.toNat_zero, if_pos rfl]
    have hvalue := (t.wrap (source.draw).1.toNat).low_le
    have hvalue' := (t.wrap (source.draw).1.toNat).le_high
    dsimp only
    omega

end IntegerType

namespace Parameter

variable {α : Type}

theorem rollIndex_lt {count : ℕ} (h : 0 < count) (source : WordSource) :
    (rollIndex count source).1.toNat < count := by
  have hlow : IntegerType.usize.low = 0 := rfl
  have hhigh : IntegerType.usize.high = 2 ^ 64 - 1 := rfl
  have hfirst : (IntegerType.usize.clamp 0).val = 0 := rfl
  have hlast : 0 ≤ (IntegerType.usize.clamp (count - 1)).val ∧
      (IntegerType.usize.clamp (count - 1)).val ≤ count - 1 := by
    rw [IntegerType.val_clamp, hlow, hhigh]
    omega
  have hmem := IntegerType.usize.roll_mem (hfirst.trans_le hlast.1) source
  rw [rollIndex]
  dsimp only
  generalize (IntegerType.usize.roll (IntegerType.usize.clamp 0)
    (IntegerType.usize.clamp (count - 1)) source).1 = index at *
  have hbound := index.le_high
  have hword : (UInt64.ofNat index.val.toNat).toNat = index.val.toNat :=
    UInt64.toNat_ofNat_of_lt (by rw [UInt64.size]; omega)
  rw [hword]
  omega

/-- A choice that no word settles. -/
inductive IsStuck : Parameter α → Prop where
  | empty : IsStuck (choice [] none)
  | beyond {values : List α} {index : UInt64} (h : values.length ≤ index.toNat) :
    IsStuck (choice values (some index))

theorem not_isStuck_of_isResolved {p : Parameter α} (h : p.isResolved = true) : ¬p.IsStuck := by
  rintro (_ | hbeyond)
  · cases h
  · exact absurd (of_decide_eq_true h) (Nat.not_lt.mpr hbeyond)

theorem isStuck_of_isResolved_eq_false {values : List α} {index : UInt64}
    (h : (choice values (some index)).isResolved = false) : (choice values (some index)).IsStuck :=
  .beyond (Nat.not_lt.mp (of_decide_eq_false h))

variable {t : NumericType} {p rolled : Parameter t.Value} {source rest : WordSource}

theorem roll_of_settled (h : p.IsStuck ∨ p.isResolved = true) :
    p.roll t source = some (p, source) := by
  cases p with
  | constant value => rfl
  | range low high stored =>
    cases stored with
    | some value => rfl
    | none =>
      rcases h with hstuck | hresolved
      · cases hstuck
      · cases hresolved
  | choice values selected =>
    cases selected with
    | some index => cases values <;> rfl
    | none =>
      rcases h with hstuck | hresolved
      · cases hstuck
        rfl
      · cases hresolved

theorem roll_choice (first : t.Value) (others : List t.Value) (source : WordSource) :
    (choice (first :: others) none).roll t source =
      some (choice (first :: others) (some (rollIndex (first :: others).length source).1),
        (rollIndex (first :: others).length source).2) := by
  rw [roll]

/-- What is open, but not stuck, is resolved. -/
theorem isResolved_roll (hopen : p.isResolved = false) (hfree : ¬p.IsStuck)
    (h : p.roll t source = some (rolled, rest)) : rolled.isResolved = true := by
  cases p with
  | constant value => cases hopen
  | range low high stored =>
    cases stored with
    | some value => cases hopen
    | none =>
      rw [roll] at h
      split_ifs at h
      · obtain ⟨⟨value, rest'⟩, -, hrolled⟩ := Option.map_eq_some_iff.mp h
        cases hrolled
        rfl
      · cases h
        rfl
  | choice values selected =>
    cases selected with
    | some index => exact absurd (isStuck_of_isResolved_eq_false hopen) hfree
    | none =>
      cases values with
      | nil => exact absurd .empty hfree
      | cons first others =>
        rw [roll_choice] at h
        cases h
        exact decide_eq_true (rollIndex_lt (Nat.succ_pos _) source)

/-- Only a range of floating-point numbers can be too wide to roll. -/
theorem exists_range_of_roll_eq_none (h : p.roll t source = none) :
    (∀ integer, t ≠ .integer integer) ∧
      ∃ low high, p = range low high none ∧ t.roll low high source = none := by
  cases p with
  | constant value => cases h
  | range low high stored =>
    cases stored with
    | some value => cases h
    | none =>
      rw [roll] at h
      split_ifs at h
      have hroll := Option.map_eq_none_iff.mp h
      refine ⟨?_, low, high, rfl, hroll⟩
      rintro integer rfl
      cases hroll
  | choice values selected =>
    cases selected with
    | some index => cases values <;> cases h
    | none =>
      cases values with
      | nil => cases h
      | cons first others =>
        rw [roll_choice] at h
        cases h

/-- A roll gives a result, of whatever words, unless it is of a range of floating-point numbers that
is too wide.  It resolves a parameter exactly if that is not stuck.  What is stuck stays open, and both
that and what is resolved stay as they are and draw no word. -/
theorem roll_resolves (t : NumericType) (p : Parameter t.Value) (source : WordSource) :
    (p.roll t source = none → (∀ integer, t ≠ .integer integer) ∧
      ∃ low high, p = range low high none ∧ t.roll low high source = none) ∧
    ∀ rolled rest, p.roll t source = some (rolled, rest) →
      (rolled.isResolved = true ↔ ¬p.IsStuck) ∧
      (p.IsStuck ∨ p.isResolved = true → rolled = p ∧ rest = source) := by
  refine ⟨exists_range_of_roll_eq_none, fun rolled rest h => ?_⟩
  have hsettled (hp : p.IsStuck ∨ p.isResolved = true) : rolled = p ∧ rest = source := by
    rw [roll_of_settled hp] at h
    cases h
    exact ⟨rfl, rfl⟩
  refine ⟨⟨fun hresolved hstuck => ?_, fun hfree => ?_⟩, hsettled⟩
  · obtain ⟨rfl, -⟩ := hsettled (.inl hstuck)
    exact not_isStuck_of_isResolved hresolved hstuck
  · cases hopen : p.isResolved with
    | true =>
      obtain ⟨rfl, -⟩ := hsettled (.inr hopen)
      exact hopen
    | false => exact isResolved_roll hopen hfree h

/-- A word chooses one of two values, and none replaces an index beyond the one value there is. -/
theorem roll_resolves_one :
    let u32 : NumericType := .integer .u32
    let three : u32.Value := IntegerType.u32.clamp 3
    let nine : u32.Value := IntegerType.u32.clamp 9
    (∃ rolled rest, (choice [three, nine] none).roll u32 ⟨[7], 0⟩ = some (rolled, rest) ∧
      rolled.isResolved = true) ∧
    ∃ rolled rest, (choice [three] (some 5)).roll u32 ⟨[7], 0⟩ = some (rolled, rest) ∧
      rolled.isResolved = false ∧ rolled = choice [three] (some 5) ∧ rest = ⟨[7], 0⟩ := by
  intro u32 three nine
  have hdraw := roll_choice three [nine] ⟨[7], 0⟩
  have hfree : ¬(choice [three, nine] none).IsStuck := nofun
  have hkeep : (choice [three] (some 5)).roll u32 ⟨[7], 0⟩ =
      some (choice [three] (some 5), ⟨[7], 0⟩) := rfl
  have hstuck : (choice [three] (some 5)).IsStuck := .beyond (by decide)
  have hopen := ((roll_resolves u32 _ _).2 _ _ hkeep).1
  refine ⟨⟨_, _, hdraw, ((roll_resolves u32 _ _).2 _ _ hdraw).1.mpr hfree⟩, _, _, hkeep, ?_, rfl, rfl⟩
  exact Bool.eq_false_iff.mpr fun h => hopen.mp h hstuck

/-- Not every choice that has values is resolved by a roll. -/
theorem not_resolved_of_values : ¬∀ (t : NumericType) (p rolled : Parameter t.Value)
    (source rest : WordSource), (∀ selected, p ≠ choice [] selected) →
      p.roll t source = some (rolled, rest) → rolled.isResolved = true := by
  intro h
  have hvalues (selected : Option UInt64) :
      choice [IntegerType.u32.clamp 3] (some 5) ≠ choice [] selected := nofun
  have hresolved := h (.integer .u32) (choice [IntegerType.u32.clamp 3] (some 5)) _ ⟨[7], 0⟩ _
    hvalues rfl
  cases hresolved

end Parameter

end QuestFormula
