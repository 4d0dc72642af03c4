import QuestFormula.Proofs.Parameter.Roll

/-! Rolling a parameter of integer type again.  A roll closes what is open: a range that is not rolled
gets a value between its ends, and a choice that is not made the index of one of its values.  What is
not open a roll leaves as it is and gives its value without a word; and since no roll leaves a
parameter open, every roll after the first gives what the first one gave. -/

namespace QuestFormula

namespace Parameter

/-- A roll may change the parameter: it is a range that is not rolled, or a choice among values that
is not made. -/
inductive IsOpen {α : Type} : Parameter α → Prop where
  | range {low high : α} : IsOpen (range low high none)
  | choice {values : List α} (h : values ≠ []) : IsOpen (choice values none)

theorem isOpen_iff {α : Type} {p : Parameter α} :
    p.IsOpen ↔ ¬(p.IsStuck ∨ p.isResolved = true) := by
  constructor
  · rintro (_ | h)
    · rintro (hstuck | hresolved)
      · cases hstuck
      · cases hresolved
    · rintro (hstuck | hresolved)
      · cases hstuck
        exact h rfl
      · cases hresolved
  · intro hfree
    rw [not_or, Bool.not_eq_true] at hfree
    cases p with
    | constant value => cases hfree.2
    | range low high rolled =>
      cases rolled with
      | some value => cases hfree.2
      | none => exact .range
    | choice values selected =>
      cases selected with
      | some index => exact absurd (isStuck_of_isResolved_eq_false hfree.2) hfree.1
      | none =>
        refine .choice ?_
        rintro rfl
        exact hfree.1 .empty

/-- Rolls of a parameter one after another, each with words of its own: the value that each gives
with the words that it leaves, and the parameter after them. -/
def rollAll (t : NumericType) (p : Parameter t.Value) :
    List WordSource → Option (List (t.Value × WordSource) × Parameter t.Value)
  | [] => some ([], p)
  | source :: sources => do
    let (v, rolled, rest) ← p.rollValue t source
    let (results, last) ← rolled.rollAll t sources
    return ((v, rest) :: results, last)

section NumericType

variable {t : NumericType} {p rolled : Parameter t.Value} {source rest : WordSource} {v : t.Value}

/-- One roll of what is not open. -/
theorem rollValue_of_not_isOpen (h : ¬p.IsOpen) (source : WordSource) :
    p.rollValue t source = some (p.value, p, source) := by
  rw [isOpen_iff, not_not] at h
  rw [rollValue, roll_of_settled h]
  rfl

/-- Any number of rolls of what is not open. -/
theorem rollAll_of_not_isOpen (h : ¬p.IsOpen) (sources : List WordSource) :
    p.rollAll t sources = some (sources.map fun source => (p.value, source), p) := by
  induction sources with
  | nil => rfl
  | cons source sources ih =>
    rw [rollAll, rollValue_of_not_isOpen h]
    simp [ih]

theorem rollValue_eq_some_iff :
    p.rollValue t source = some (v, rolled, rest) ↔
      p.roll t source = some (rolled, rest) ∧ rolled.value = v := by
  rw [rollValue, Option.map_eq_some_iff]
  constructor
  · rintro ⟨_, h, hrolled⟩
    cases hrolled
    exact ⟨h, rfl⟩
  · rintro ⟨h, rfl⟩
    exact ⟨_, h, rfl⟩

/-- A roll leaves nothing open. -/
theorem not_isOpen_of_roll (h : p.roll t source = some (rolled, rest)) : ¬rolled.IsOpen := by
  by_cases hopen : p.IsOpen
  · rw [isOpen_iff, not_or, Bool.not_eq_true] at hopen
    rw [isOpen_iff, not_not]
    exact .inr (isResolved_roll hopen.2 hopen.1 h)
  · have hroll : p.roll t source = some (p, source) :=
      roll_of_settled (not_not.mp (mt isOpen_iff.mpr hopen))
    rw [h] at hroll
    cases hroll
    exact hopen

/-- Any number of rolls after a roll. -/
theorem rollAll_of_roll (h : p.roll t source = some (rolled, rest)) (sources : List WordSource) :
    rolled.rollAll t sources = some (sources.map fun source => (rolled.value, source), rolled) :=
  rollAll_of_not_isOpen (not_isOpen_of_roll h) sources

theorem roll_range (low high : t.Value) (source : WordSource) :
    (range low high none).roll t source =
      if t.less low high then
        (t.roll low high source).map fun (value, rest) => (range low high (some value), rest)
      else some (range low high (some low), source) := by
  rw [roll]

end NumericType

section IntegerType

variable {t : IntegerType}

/-- A range of integers always gets a value: one between its ends, or its low end if that is above the
high one. -/
theorem exists_roll_range (low high : t.Value) (source : WordSource) :
    ∃ (v : t.Value) (rest : WordSource),
      (range low high none).roll (.integer t) source = some (range low high (some v), rest) ∧
      (low.val ≤ high.val → low.val ≤ v.val ∧ v.val ≤ high.val) ∧
      (high.val < low.val → v = low) := by
  by_cases h : low.val < high.val
  · refine ⟨_, _, (roll_range (t := .integer t) low high source).trans
      (if_pos (decide_eq_true h)), fun hle => t.roll_mem hle source, fun hlt => ?_⟩
    exact absurd h (Int.lt_asymm hlt)
  · refine ⟨low, source, (roll_range (t := .integer t) low high source).trans
      (if_neg (by simpa [NumericType.less] using h)), fun hle => ⟨le_rfl, hle⟩, fun _ => rfl⟩

/-- A choice among values always gets the index of one. -/
theorem exists_roll_choice {values : List t.Value} (h : values ≠ []) (source : WordSource) :
    ∃ (index : UInt64) (rest : WordSource),
      (choice values none).roll (.integer t) source = some (choice values (some index), rest) ∧
      index.toNat < values.length := by
  cases values with
  | nil => exact absurd rfl h
  | cons first others =>
    exact ⟨_, _, roll_choice (t := .integer t) first others source,
      rollIndex_lt (Nat.succ_pos _) source⟩

theorem value_choice_of_lt {values : List t.Value} {index : UInt64}
    (h : index.toNat < values.length) :
    values[index.toNat]? = some (choice values (some index)).value := by
  simp [value, h]

/-- A roll of a parameter of integer type gives a result, of whatever words.  The parameter then has
the value given, which a formula reads as a 64-bit number, and every later roll, of whatever words,
gives that value again, draws no word and changes nothing.  A range that was not rolled keeps its ends
and gets the value: one between them, or the low end if that is above the high one.  A choice that was
not made keeps its values and gets the index of the value given.  All else stays as it was, draws no
word and gives the value that it had. -/
theorem roll_sticks (t : IntegerType) (p : Parameter t.Value) (source : WordSource) :
    ∃ (v : t.Value) (rolled : Parameter t.Value) (rest : WordSource),
      p.rollValue (.integer t) source = some (v, rolled, rest) ∧
      (rolled.value = v ∧ rolled.toFloat (.integer t) = IntegerType.toFloat v) ∧
      (∀ sources, rolled.rollAll (.integer t) sources =
        some (sources.map fun source => (v, source), rolled)) ∧
      (∀ low high, p = range low high none → rolled = range low high (some v) ∧
        (low.val ≤ high.val → low.val ≤ v.val ∧ v.val ≤ high.val) ∧
        (high.val < low.val → v = low)) ∧
      (∀ values, p = choice values none → values ≠ [] → ∃ index : UInt64,
        rolled = choice values (some index) ∧ index.toNat < values.length ∧
        values[index.toNat]? = some v) ∧
      (¬p.IsOpen → rolled = p ∧ v = p.value ∧ rest = source) := by
  by_cases hopen : p.IsOpen
  · cases hopen with
    | @range low high =>
      obtain ⟨v, rest, hroll, hbetween, hinverted⟩ := exists_roll_range low high source
      refine ⟨v, _, rest, rollValue_eq_some_iff.mpr ⟨hroll, rfl⟩, ⟨rfl, rfl⟩,
        rollAll_of_roll (t := .integer t) hroll, fun low' high' h => ?_, nofun,
        fun hclosed => absurd .range hclosed⟩
      cases h
      exact ⟨rfl, hbetween, hinverted⟩
    | @choice values hvalues =>
      obtain ⟨index, rest, hroll, hlt⟩ := exists_roll_choice hvalues source
      refine ⟨_, _, rest, rollValue_eq_some_iff.mpr ⟨hroll, rfl⟩, ⟨rfl, rfl⟩,
        rollAll_of_roll (t := .integer t) hroll, nofun, fun values' h _ => ?_,
        fun hclosed => absurd (.choice hvalues) hclosed⟩
      cases h
      exact ⟨index, rfl, hlt, value_choice_of_lt hlt⟩
  · have hroll : p.roll (.integer t) source = some (p, source) :=
      roll_of_settled (t := .integer t) (not_not.mp (mt isOpen_iff.mpr hopen))
    refine ⟨p.value, p, source, rollValue_eq_some_iff.mpr ⟨hroll, rfl⟩, ⟨rfl, rfl⟩,
      rollAll_of_roll (t := .integer t) hroll, fun low high h => ?_,
      fun values h hvalues => ?_, fun _ => ⟨rfl, rfl, rfl⟩⟩
    · exact absurd (h ▸ .range) hopen
    · exact absurd (h ▸ .choice hvalues) hopen

/-- A range from one to six, and one from six down to one, each rolled three times. -/
theorem roll_sticks_rounds :
    let one := IntegerType.u8.clamp 1
    let six := IntegerType.u8.clamp 6
    (∃ v rolled rest, (range one six none).rollValue (.integer .u8) ⟨[9, 4], 0⟩ =
        some (v, rolled, rest) ∧ 1 ≤ IntegerType.Value.val v ∧ IntegerType.Value.val v ≤ 6 ∧
      rolled.rollAll (.integer .u8) [⟨[2], 0⟩, ⟨[], 5⟩] =
        some ([(v, ⟨[2], 0⟩), (v, ⟨[], 5⟩)], rolled)) ∧
    ∃ rolled rest, (range six one none).rollValue (.integer .u8) ⟨[9, 4], 0⟩ =
        some (six, rolled, rest) ∧
      rolled.rollAll (.integer .u8) [⟨[2], 0⟩, ⟨[], 5⟩] =
        some ([(six, ⟨[2], 0⟩), (six, ⟨[], 5⟩)], rolled) := by
  intro one six
  obtain ⟨v, rolled, rest, hroll, -, hlater, hrange, -⟩ :=
    roll_sticks .u8 (range one six none) ⟨[9, 4], 0⟩
  obtain ⟨-, hbetween, -⟩ := hrange one six rfl
  obtain ⟨hlow, hhigh⟩ := hbetween (by decide)
  obtain ⟨v', rolled', rest', hroll', -, hlater', hrange', -⟩ :=
    roll_sticks .u8 (range six one none) ⟨[9, 4], 0⟩
  obtain ⟨-, -, hinverted⟩ := hrange' six one rfl
  obtain rfl := hinverted (by decide)
  exact ⟨⟨v, rolled, rest, hroll, hlow, hhigh, hlater _⟩, rolled', rest', hroll', hlater' _⟩

end IntegerType

end Parameter

end QuestFormula
