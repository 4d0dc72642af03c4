import QuestFormula.Proofs.Evaluator.Compilation
import QuestFormula.Proofs.Factory.Transparency
import QuestFormula.Proofs.Formula.Spacing

/-! Two spellings of one expression.  Of a formula only its expression is compiled; its text stands
in the errors about it and in its evaluator, and nowhere else.  So two accepted formulas that are
alike but for their blanks compile to the same code over the same members, or fail with the same
error about another text, although a factory keeps an outcome for each. -/

namespace QuestFormula

/-- The error as one about another formula. -/
def FormulaError.quoting (formula : String) : FormulaError → FormulaError
  | parse _ fault => .parse formula fault
  | unknownVariable _ name stateType => .unknownVariable formula name stateType
  | ambiguousVariable _ name candidates => .ambiguousVariable formula name candidates
  | nonNumericVariable _ name typeName => .nonNumericVariable formula name typeName
  | error => error

/-- The outcome for a formula as one for another formula. -/
def respelled {α : Type} (formula : String) (label : α → α) (outcome : Except FormulaError α) :
    Except FormulaError α :=
  (outcome.map label).mapError (.quoting formula)

@[simp] theorem respelled_ok {α : Type} (formula : String) (label : α → α) (a : α) :
    respelled formula label (.ok a) = .ok (label a) := rfl

@[simp] theorem respelled_error {α : Type} (formula : String) (label : α → α)
    (error : FormulaError) :
    respelled formula label (.error error) = .error (error.quoting formula) := rfl

/-! ### Every stage -/

/-- The bound formula with another text. -/
def BoundFormula.labelled {S : StateType} (formula : String) (bound : BoundFormula S) :
    BoundFormula S :=
  { bound with formula }

/-- The evaluator with another text. -/
def Evaluator.labelled {S : StateType} (formula : String) (e : Evaluator S) : Evaluator S :=
  { e with formula }

namespace Catalog

variable {S : StateType} {c : Catalog S} {formula other : String} {e e' : Expr}

theorem lookup_respelled (c : Catalog S) (formula other name : String) :
    c.lookup other name = respelled other id (c.lookup formula name) := by
  simp only [lookup]
  split
  · rfl
  · split <;> rfl
  · rfl

/-- Expressions that agree are bound alike. -/
theorem bind_respelled (h : e'.Agrees Eq e) (bs : List (Binding S)) :
    c.bind other bs e' = respelled other id (c.bind formula bs e) := by
  induction h generalizing bs with
  | literal h =>
    rw [h]
    rfl
  | var name =>
    rw [bind, bind, c.lookup_respelled formula other name]
    cases c.lookup formula name <;> rfl
  | @binary op l' l r' r _ _ ihl ihr =>
    rw [bind, bind, ihl bs]
    cases c.bind formula bs l with
    | error error => rfl
    | ok left =>
      simp only [respelled_ok, id, ihr left.2]
      cases c.bind formula left.2 r <;> rfl
  | negate _ ih =>
    rw [bind, bind, ih bs]
    cases c.bind formula bs _ <;> rfl

theorem resolve_respelled (h : e'.Agrees Eq e) :
    c.resolve other e' = respelled other (.labelled other) (c.resolve formula e) := by
  rw [resolve, resolve, bind_respelled h]
  cases c.bind formula [] e <;> rfl

end Catalog

theorem readersOf_respelled {S : StateType} (formula other : String) (bs : List (Binding S)) :
    readersOf other bs = respelled other id (readersOf formula bs) := by
  induction bs with
  | nil => rfl
  | cons b bs ih =>
    rw [readersOf, readersOf, ih]
    cases b.reader? with
    | none => rfl
    | some read => cases readersOf formula bs <;> rfl

/-- An error about the constructors of a reward type quotes no formula. -/
theorem RewardType.quoting_of_construction {R : RewardType} {error : FormulaError}
    (h : R.construction = .error error) (other : String) : error.quoting other = error := by
  rw [construction] at h
  split at h <;> cases h <;> rfl

theorem BoundFormula.compile_labelled {S : StateType} (bound : BoundFormula S) (R : RewardType)
    (other : String) : (bound.labelled other).compile R =
      respelled other (Prod.map (.labelled other) id) (bound.compile R) := by
  rw [compile, compile, labelled, readersOf_respelled bound.formula other]
  cases hk : R.construction with
  | error error => exact congrArg Except.error (RewardType.quoting_of_construction hk other).symm
  | ok k => cases readersOf bound.formula bound.bindings <;> rfl

namespace Factory

variable {formula other : String} {e e' : Expr}

/-- Formulas with expressions that agree compile alike, but for the text in what comes out. -/
theorem compileWith_respelled {S : StateType} (c : Catalog S) (R : RewardType)
    (h : parse formula = .ok e) (h' : parse other = .ok e') (hagrees : e'.Agrees Eq e) :
    compileWith c R other =
      respelled other (Prod.map (.labelled other) id) (compileWith c R formula) := by
  rw [compileWith, compileWith, h, h']
  show c.resolve other e' >>= _ = respelled other _ (c.resolve formula e >>= _)
  rw [Catalog.resolve_respelled hagrees]
  cases c.resolve formula e with
  | error error => rfl
  | ok bound => exact bound.compile_labelled R other

end Factory

theorem Descriptor.evaluator_respelled {formula other : String} {e e' : Expr} (S : StateType)
    (R : RewardType) (h : parse formula = .ok e) (h' : parse other = .ok e')
    (hagrees : e'.Agrees Eq e) :
    evaluator ⟨S, R, other⟩ = respelled other (.labelled other) (evaluator ⟨S, R, formula⟩) := by
  rw [evaluator, evaluator, Factory.compileWith_respelled _ R h h' hagrees]
  cases Factory.compileWith (Catalog.build S) R formula <;> rfl

namespace Factory

/-- Whatever was asked before, the outcomes for formulas with expressions that agree are the same
error about either text, or evaluators with the same results and rewards. -/
theorem outcomes_of_agrees {formula other : String} {e e' : Expr} (S : StateType) (R : RewardType)
    (h : parse formula = .ok e) (h' : parse other = .ok e') (hagrees : e'.Agrees Eq e)
    (calls calls' : List Call) :
    let outcome := ((history calls).getOrCompile ⟨S, R, formula⟩ S R).value.1
    let outcome' := ((history calls').getOrCompile ⟨S, R, other⟩ S R).value.1
    (∃ error, outcome = .error error ∧ outcome' = .error (error.quoting other)) ∨
    ∃ made made', outcome = .ok made ∧ outcome' = .ok made' ∧ ∀ state,
      made'.evaluator.evaluateRaw state = made.evaluator.evaluateRaw state ∧
      made'.evaluator.evaluate state = made.evaluator.evaluate state := by
  intro outcome outcome'
  have hmap : outcome.map Compiled.evaluator = Descriptor.evaluator ⟨S, R, formula⟩ :=
    map_evaluator_getOrCompile_history calls ⟨S, R, formula⟩
  have hmap' : outcome'.map Compiled.evaluator = Descriptor.evaluator ⟨S, R, other⟩ :=
    map_evaluator_getOrCompile_history calls' ⟨S, R, other⟩
  rw [Descriptor.evaluator_respelled S R h h' hagrees, ← hmap] at hmap'
  cases ho : outcome with
  | error error =>
    rw [ho] at hmap'
    cases ho' : outcome' with
    | error error' =>
      rw [ho'] at hmap'
      exact .inl ⟨error, rfl, congrArg Except.error (Except.error.inj hmap')⟩
    | ok made' =>
      rw [ho'] at hmap'
      cases hmap'
  | ok made =>
    rw [ho] at hmap'
    cases ho' : outcome' with
    | error error' =>
      rw [ho'] at hmap'
      cases hmap'
    | ok made' =>
      rw [ho'] at hmap'
      have hmade : made'.evaluator = made.evaluator.labelled other := Except.ok.inj hmap'
      refine .inr ⟨made, made', rfl, rfl, fun state => ?_⟩
      rw [hmade]
      exact ⟨rfl, rfl⟩

/-- Two spellings are two keys. -/
theorem size_history_spellings {formula other : String} (S : StateType) (R : RewardType)
    (hne : other ≠ formula) :
    (history [.evaluator ⟨S, R, formula⟩ S R, .evaluator ⟨S, R, other⟩ S R]).size = 2 := by
  have hneeded : neededDescriptors [.evaluator ⟨S, R, formula⟩ S R, .evaluator ⟨S, R, other⟩ S R] =
      {⟨S, R, formula⟩, ⟨S, R, other⟩} := by
    simp [neededDescriptors, Call.descriptor?]
  have hkeys : (⟨S, R, formula⟩ : Descriptor) ≠ ⟨S, R, other⟩ := fun h =>
    hne (congrArg Descriptor.formula h).symm
  rw [size_history, hneeded, Finset.card_pair hkeys]

end Factory

/-- An accepted formula is accepted, with the same expression but for the positions of its variables,
without its blanks, with blanks put in where no lexeme is cut, and with any blanks, or none, around
its lexemes.  Another accepted formula that is alike but for blanks has, for every state type and
reward type and whatever the factories were asked before, the same error about its own text or an
evaluator with the same results and rewards; and a factory keeps an outcome for either. -/
theorem parse_ignores_blanks {formula : String} {e : Expr} (h : parse formula = .ok e) :
    (∃ e', parse (withoutBlanks formula) = .ok e' ∧ e'.Agrees Eq e) ∧
    (∃ ls, Splits 0 formula.toList ls [] ∧
      (∀ text, Spaced (ls.map Lexeme.text) text.toList →
        ∃ e', parse text = .ok e' ∧ e'.Agrees Eq e) ∧
      ∀ before blanks after, formula.toList = before ++ after → (∀ c ∈ blanks, isBlank c) →
        (∀ l ∈ ls, before.length ≤ l.position ∨ l.position + l.text.length ≤ before.length) →
        ∃ e', parse (String.ofList (before ++ (blanks ++ after))) = .ok e' ∧ e'.Agrees Eq e) ∧
    ∀ other e', parse other = .ok e' → withoutBlanks other = withoutBlanks formula →
      ∀ (S : StateType) (R : RewardType),
        (∀ calls calls',
          let outcome := ((Factory.history calls).getOrCompile ⟨S, R, formula⟩ S R).value.1
          let outcome' := ((Factory.history calls').getOrCompile ⟨S, R, other⟩ S R).value.1
          (∃ error, outcome = .error error ∧ outcome' = .error (error.quoting other)) ∨
          ∃ made made', outcome = .ok made ∧ outcome' = .ok made' ∧ ∀ state,
            made'.evaluator.evaluateRaw state = made.evaluator.evaluateRaw state ∧
            made'.evaluator.evaluate state = made.evaluator.evaluate state) ∧
        (other ≠ formula → (Factory.history [.evaluator ⟨S, R, formula⟩ S R,
          .evaluator ⟨S, R, other⟩ S R]).size = 2) := by
  obtain ⟨stream, htokenize, -⟩ := exists_derives_of_parse h
  obtain ⟨ls, hsplits, -⟩ := tokenize_eq_ok_iff.mp htokenize
  refine ⟨exists_parse_withoutBlanks h, ⟨ls, hsplits, fun text => Spaced.exists_parse h hsplits,
    fun before blanks after hformula hblanks hcut => ?_⟩,
    fun other e' h' hsame S R => ⟨Factory.outcomes_of_agrees S R h h'
      (agrees_of_withoutBlanks_eq h h' hsame), Factory.size_history_spellings S R⟩⟩
  refine Spaced.exists_parse h hsplits ?_
  rw [String.toList_ofList]
  exact hsplits.spaced_insert rfl hformula hblanks (by simpa only [Nat.zero_add] using hcut)

/-- A difference written with a minus sign apart from the other, without any blank, behind a wide
blank, and with one after both signs. -/
theorem parse_ignores_blanks_minuses :
    let title : RewardType := ⟨"Title", "Title", [.text], .literal⟩
    let formula := "bonus - -level"
    let other := "bonus--\u3000level"
    let e : Expr := .binary .sub (.var "bonus" 0) (.negate (.var "level" 9))
    parse formula = .ok e ∧ (∃ e', parse "bonus--level" = .ok e' ∧ e'.Agrees Eq e) ∧
    (∃ e', parse "\u3000bonus - -level" = .ok e' ∧ e'.Agrees Eq e) ∧
    (∃ made made',
      ((Factory.history []).getOrCompile ⟨huntState, title, formula⟩ huntState title).value.1 =
        .ok made ∧
      ((Factory.history []).getOrCompile ⟨huntState, title, other⟩ huntState title).value.1 =
        .ok made' ∧
      ∀ state, made'.evaluator.evaluateRaw state = made.evaluator.evaluateRaw state) ∧
    (Factory.history [.evaluator ⟨huntState, title, formula⟩ huntState title,
      .evaluator ⟨huntState, title, other⟩ huntState title]).size = 2 := by
  intro title formula other e
  have hparse : parse formula = .ok e := by cbv
  have hparse' : parse other = .ok (.binary .sub (.var "bonus" 0) (.negate (.var "level" 8))) := by
    cbv
  have htext : withoutBlanks formula = "bonus--level" := by cbv
  have hsame : withoutBlanks other = withoutBlanks formula := by cbv
  have hwide : String.ofList ([] ++ (['\u3000'] ++ formula.toList)) = "\u3000bonus - -level" := by
    cbv
  have hok : ((Factory.history []).getOrCompile ⟨huntState, title, formula⟩ huntState
      title).value.1.isOk = true := by cbv
  obtain ⟨hbare, ⟨ls, -, -, hinsert⟩, hother⟩ := parse_ignores_blanks hparse
  obtain ⟨houtcomes, hsize⟩ := hother other _ hparse' hsame huntState title
  have hblank : ∀ c ∈ ['\u3000'], isBlank c := List.forall_mem_singleton.mpr rfl
  have hfront := hinsert [] ['\u3000'] formula.toList rfl hblank fun l _ => .inl (Nat.zero_le _)
  rw [htext] at hbare
  rw [hwide] at hfront
  refine ⟨hparse, hbare, hfront, ?_, hsize (by decide)⟩
  rcases houtcomes [] [] with ⟨error, herror, -⟩ | ⟨made, made', hmade, hmade', hvalue⟩
  · rw [herror] at hok
    cases hok
  · exact ⟨made, made', hmade, hmade', fun state => (hvalue state).1⟩

end QuestFormula
