import QuestFormula.Lint.Report
import QuestFormula.Proofs.Evaluator.Compilation
import QuestFormula.Proofs.Factory.History

/-! What the lint says about a formula, without any state type, against what a factory makes of it
for a state type and a reward type.  Compiling stops at the first stage that fails: parsing, then
the names from left to right, then the constructors of the reward type.  The lint's list of names
has no repetitions, but its first name that does not resolve is the first one of the expression,
since a repeated name resolves as it did before. -/

namespace QuestFormula

/-- What the report says against the formula. -/
def FormulaReport.error? (f : FormulaReport) : Option String :=
  match f.result with
  | .error e => some e.message
  | .ok _ => none

/-- The names that the report lists. -/
def FormulaReport.variables? (f : FormulaReport) : Option (List String) := f.result.toOption

/-- Where compiling fails. -/
inductive CompileStage where
  | request | parsing | resolution | construction
deriving DecidableEq

/-- The stage that fails with the error. -/
def FormulaError.stage : FormulaError → CompileStage
  | .descriptorMismatch .. => .request
  | .parse .. => .parsing
  | .unknownVariable .. | .ambiguousVariable .. | .nonNumericVariable .. => .resolution
  | .noConstruction _ | .ambiguousConstruction .. => .construction

/-- The name has a single leader among the members of the state type, and it can be read. -/
def StateType.Resolves (S : StateType) (name : String) : Prop :=
  ∃ w : Binding S, w.Leads name ∧ (∀ b : Binding S, b.Leads name → b = w) ∧
    w.member.type ≠ .unreadable

/-! ### Names -/

theorem findSome?_filter_ne {α β : Type} [BEq α] [LawfulBEq α] {f : α → Option β} {a : α}
    (ha : f a = none) (l : List α) :
    (l.filter fun b => !b == a).findSome? f = l.findSome? f := by
  induction l with
  | nil => rfl
  | cons b l ih =>
    by_cases hb : b = a
    · subst hb
      simp [ha, ih]
    · simp [hb, List.findSome?_cons, ih]

theorem findSome?_eraseDups {α β : Type} [BEq α] [LawfulBEq α] (f : α → Option β) :
    ∀ l : List α, l.eraseDups.findSome? f = l.findSome? f
  | [] => rfl
  | a :: l => by
    rw [List.eraseDups_cons, List.findSome?_cons, List.findSome?_cons, findSome?_eraseDups]
    cases ha : f a with
    | some b => rfl
    | none => exact findSome?_filter_ne ha l
termination_by l => l.length
decreasing_by exact Nat.lt_succ_of_le (List.length_filter_le _ l)

namespace Catalog

variable {S : StateType} {formula name : String}

theorem lookupError?_eq_none_iff {c : Catalog S} :
    c.lookupError? formula name = none ↔ ∃ b, c.lookup formula name = .ok b := by
  rw [lookupError?]
  cases c.lookup formula name with
  | error e => simp
  | ok b => simp

theorem lookupError?_eq_some_iff {c : Catalog S} {error : FormulaError} :
    c.lookupError? formula name = some error ↔ c.lookup formula name = .error error := by
  rw [lookupError?]
  cases c.lookup formula name with
  | error e => simp
  | ok b => simp

theorem lookupError?_build_eq_none_iff :
    (build S).lookupError? formula name = none ↔ S.Resolves name := by
  simp only [lookupError?_eq_none_iff, lookup_eq_ok_iff, leaders_build_eq_singleton_iff,
    StateType.Resolves, and_assoc]

theorem stage_of_lookup {c : Catalog S} {error : FormulaError}
    (h : c.lookup formula name = .error error) :
    error.stage = .resolution ∧ error.formula? = some formula := by
  match hl : c.leaders name with
  | [] =>
    rw [lookup_of_leaders_eq_nil hl] at h
    cases h
    exact ⟨rfl, rfl⟩
  | [w] =>
    rw [lookup_of_leaders_eq_singleton hl] at h
    split at h
    · cases h
      exact ⟨rfl, rfl⟩
    · cases h
  | a :: b :: rest =>
    rw [lookup_of_two_le_leaders (by simp [hl])] at h
    cases h
    exact ⟨rfl, rfl⟩

end Catalog

theorem RewardType.stage_of_construction {R : RewardType} {error : FormulaError}
    (h : R.construction = .error error) :
    error.stage = .construction ∧ error.formula? = none := by
  rw [construction] at h
  split at h
  all_goals
    cases h
    try exact ⟨rfl, rfl⟩

theorem RewardType.construction_of_two_le {R : RewardType} (h : 2 ≤ R.constructors.length) :
    R.construction = .error (.ambiguousConstruction R.name (R.constructors.map (·.name))) := by
  unfold construction
  split <;> simp_all

/-! ### What a formula compiles to -/

namespace Descriptor

variable {S : StateType} {R : RewardType} {formula : String} {e : Expr} {error : FormulaError}

theorem evaluator_of_parse_error (h : parse formula = .error error) :
    evaluator ⟨S, R, formula⟩ = .error error := by
  rw [evaluator, Factory.compileWith, h]
  rfl

theorem evaluator_of_lookupError (hp : parse formula = .ok e)
    (h : e.variableNames.findSome? ((Catalog.build S).lookupError? formula) = some error) :
    evaluator ⟨S, R, formula⟩ = .error error := by
  rw [Expr.variableNames, findSome?_eraseDups] at h
  have hr := Catalog.resolve_eq_error_iff.mpr h
  rw [evaluator, Factory.compileWith, hp]
  show ((Catalog.build S).resolve formula e >>= _).map _ = _
  rw [hr]
  rfl

/-- Where all names resolve, the constructors of the reward type decide. -/
theorem evaluator_of_resolves (hp : parse formula = .ok e)
    (h : ∀ name ∈ e.variableNames, S.Resolves name) :
    ∃ make : Construction → Evaluator S,
      evaluator ⟨S, R, formula⟩ = R.construction.map make := by
  have hnone : e.names.findSome? ((Catalog.build S).lookupError? formula) = none := by
    rw [← findSome?_eraseDups, List.findSome?_eq_none_iff]
    exact fun name hn => Catalog.lookupError?_build_eq_none_iff.mpr (h name hn)
  rcases Factory.compileWith_cases (Catalog.build S) R formula with
    ⟨error, hp', -⟩ | ⟨e', hp', ⟨error, hr, -⟩ | ⟨bound, readers, -, -, hc⟩⟩
  · rw [hp] at hp'
    cases hp'
  · obtain rfl := Except.ok.inj (hp.symm.trans hp')
    rw [Catalog.resolve_eq_error_iff, hnone] at hr
    cases hr
  · refine ⟨fun k => ⟨formula, readers, (Code.ofExpr bound.expr).1, k⟩, ?_⟩
    rw [evaluator, hc]
    cases R.construction <;> rfl

/-- Where some name does not resolve, the first one decides. -/
theorem evaluator_of_unresolved (hp : parse formula = .ok e)
    (h : ∃ name ∈ e.variableNames, ¬S.Resolves name) :
    ∃ before name rest error, e.variableNames = before ++ name :: rest ∧
      (∀ earlier ∈ before, S.Resolves earlier) ∧ ¬S.Resolves name ∧
      (Catalog.build S).lookup formula name = .error error ∧
      ∀ R, evaluator ⟨S, R, formula⟩ = .error error := by
  cases hf : e.variableNames.findSome? ((Catalog.build S).lookupError? formula) with
  | none =>
    obtain ⟨name, hn, hname⟩ := h
    have hnone := List.findSome?_eq_none_iff.mp hf name hn
    exact absurd (Catalog.lookupError?_build_eq_none_iff.mp hnone) hname
  | some error =>
    obtain ⟨before, name, rest, hsplit, hname, hbefore⟩ := List.findSome?_eq_some_iff.mp hf
    refine ⟨before, name, rest, error, hsplit, fun earlier he => ?_, ?_,
      Catalog.lookupError?_eq_some_iff.mp hname, fun R => evaluator_of_lookupError hp hf⟩
    · exact Catalog.lookupError?_build_eq_none_iff.mp (hbefore earlier he)
    · rw [← @Catalog.lookupError?_build_eq_none_iff S formula name, hname]
      simp

/-- An error after parsing is of a name, or of the constructors if all names resolve. -/
theorem stage_of_evaluator (hp : parse formula = .ok e)
    (h : evaluator ⟨S, R, formula⟩ = .error error) :
    error.stage = .resolution ∧ error.formula? = some formula ∨
      error.stage = .construction ∧ error.formula? = none ∧
        ∀ name ∈ e.variableNames, S.Resolves name := by
  by_cases hall : ∀ name ∈ e.variableNames, S.Resolves name
  · right
    obtain ⟨make, hmake⟩ := evaluator_of_resolves hp hall
    rw [h] at hmake
    cases hk : R.construction with
    | ok k =>
      rw [hk] at hmake
      cases hmake
    | error error' =>
      rw [hk] at hmake
      cases hmake
      obtain ⟨hstage, hformula⟩ := RewardType.stage_of_construction hk
      exact ⟨hstage, hformula, hall⟩
  · left
    obtain ⟨_, name, _, error', -, -, -, hlookup, hevaluator⟩ :=
      evaluator_of_unresolved hp (by simpa using hall)
    obtain rfl := Except.error.inj ((hevaluator R).symm.trans h)
    exact Catalog.stage_of_lookup hlookup

theorem evaluator_of_construction_error (hp : parse formula = .ok e)
    (h : ∀ name ∈ e.variableNames, S.Resolves name) (hk : R.construction = .error error) :
    evaluator ⟨S, R, formula⟩ = .error error := by
  obtain ⟨make, hmake⟩ := @evaluator_of_resolves S R formula e hp h
  rw [hmake, hk]
  rfl

theorem exists_evaluator_eq_ok_iff (hp : parse formula = .ok e) :
    (∃ made, evaluator ⟨S, R, formula⟩ = .ok made) ↔
      (∀ name ∈ e.variableNames, S.Resolves name) ∧
        ∃ parameter, R.constructors = [parameter] := by
  by_cases hall : ∀ name ∈ e.variableNames, S.Resolves name
  · obtain ⟨make, hmake⟩ := @evaluator_of_resolves S R formula e hp hall
    rw [hmake]
    cases hk : R.construction with
    | ok k =>
      obtain ⟨parameter, hparameter, -⟩ := RewardType.construction_eq_ok_iff.mp hk
      exact ⟨fun _ => ⟨hall, parameter, hparameter⟩, fun _ => ⟨make k, rfl⟩⟩
    | error error =>
      refine ⟨fun ⟨made, hmade⟩ => (by cases hmade), fun ⟨_, parameter, hparameter⟩ => ?_⟩
      have hok : R.construction = .ok ⟨R, parameter⟩ :=
        RewardType.construction_eq_ok_iff.mpr ⟨parameter, hparameter, rfl⟩
      rw [hk] at hok
      cases hok
  · obtain ⟨_, _, _, error, -, -, -, -, hevaluator⟩ :=
      @evaluator_of_unresolved S formula e hp (by simpa using hall)
    refine ⟨fun ⟨made, hmade⟩ => ?_, fun h => absurd h.1 hall⟩
    rw [hevaluator R] at hmade
    cases hmade

end Descriptor

/-! ### The lint and the factory -/

theorem error?_lintReward_of_error {r : RewardLine} {error : FormulaError}
    (h : parse r.formula = .error error) : (lintReward r).error? = some error.message := by
  simp only [lintReward, h, FormulaReport.error?]

theorem variables?_lintReward_of_error {r : RewardLine} {error : FormulaError}
    (h : parse r.formula = .error error) : (lintReward r).variables? = none := by
  simp only [lintReward, h, FormulaReport.variables?, Except.toOption]

theorem error?_lintReward_of_ok {r : RewardLine} {e : Expr} (h : parse r.formula = .ok e) :
    (lintReward r).error? = none := by
  simp only [lintReward, h, FormulaReport.error?]

theorem variables?_lintReward_of_ok {r : RewardLine} {e : Expr} (h : parse r.formula = .ok e) :
    (lintReward r).variables? = some e.variableNames := by
  simp only [lintReward, h, FormulaReport.variables?, Except.toOption]

/-- A report has an error, the message of that with which compiling fails at parsing, or else names.
Of these the first that does not resolve gives the error of compiling, whatever the reward type; and
if all resolve, there is an evaluator exactly if the reward type has one constructor.  Compiling
fails at the constructors only then, and its errors name the formula except for those. -/
theorem lintReward_decides_outcome (calls : List Factory.Call) (r : RewardLine) (S : StateType) :
    let report := lintReward r
    let outcome (R : RewardType) : Outcome S :=
      ((Factory.history calls).getOrCompile ⟨S, R, r.formula⟩ S R).value.1
    (report.error?.isSome ↔ report.variables? = none) ∧
    (∀ R message, report.error? = some message ↔
      ∃ error, outcome R = .error error ∧ error.stage = .parsing ∧ message = error.message) ∧
    (∀ names, report.variables? = some names →
      (∀ R, (∃ compiled, outcome R = .ok compiled) ↔
        (∀ name ∈ names, S.Resolves name) ∧ ∃ parameter, R.constructors = [parameter]) ∧
      ((∃ name ∈ names, ¬S.Resolves name) →
        ∃ before name rest error, names = before ++ name :: rest ∧
          (∀ earlier ∈ before, S.Resolves earlier) ∧ ¬S.Resolves name ∧
          (Catalog.build S).lookup r.formula name = .error error ∧
          ∀ R, outcome R = .error error) ∧
      ((∀ name ∈ names, S.Resolves name) → ∀ R,
        (R.constructors = [] → outcome R = .error (.noConstruction R.name)) ∧
        (2 ≤ R.constructors.length → outcome R =
          .error (.ambiguousConstruction R.name (R.constructors.map (·.name))))) ∧
      ∀ R error, outcome R = .error error → error.stage = .construction →
        ∀ name ∈ names, S.Resolves name) ∧
    ∀ R error, outcome R = .error error →
      error.formula? = if error.stage = .construction then none else some r.formula := by
  intro report outcome
  have herror (R : RewardType) (error : FormulaError) :
      outcome R = .error error ↔ Descriptor.evaluator ⟨S, R, r.formula⟩ = .error error :=
    Factory.getOrCompile_history_eq_error_iff calls ⟨S, R, r.formula⟩
  have hok (R : RewardType) : (∃ compiled, outcome R = .ok compiled) ↔
      ∃ made, Descriptor.evaluator ⟨S, R, r.formula⟩ = .ok made :=
    Factory.exists_getOrCompile_history_eq_ok_iff calls ⟨S, R, r.formula⟩
  cases hp : parse r.formula with
  | error error =>
    have hout (R : RewardType) : outcome R = .error error :=
      (herror R error).mpr (Descriptor.evaluator_of_parse_error hp)
    have he : report.error? = some error.message := error?_lintReward_of_error hp
    have hv : report.variables? = none := variables?_lintReward_of_error hp
    obtain ⟨fault, rfl⟩ := parse_eq_error hp
    refine ⟨by simp [he, hv], fun R message => ?_, fun names hn => ?_, fun R error h => ?_⟩
    · constructor
      · intro h
        rw [he] at h
        exact ⟨_, hout R, rfl, (Option.some.inj h).symm⟩
      · rintro ⟨error, h, -, rfl⟩
        rw [hout R] at h
        cases h
        exact he
    · rw [hv] at hn
      cases hn
    · rw [hout R] at h
      cases h
      rfl
  | ok e =>
    have he : report.error? = none := error?_lintReward_of_ok hp
    have hv : report.variables? = some e.variableNames := variables?_lintReward_of_ok hp
    have hstage {R : RewardType} {error : FormulaError} (h : outcome R = .error error) :=
      Descriptor.stage_of_evaluator hp ((herror R error).mp h)
    refine ⟨by simp [he, hv], fun R message => ?_, fun names hn => ?_, fun R error h => ?_⟩
    · rw [he]
      refine ⟨fun h => (by cases h), fun ⟨error, h, hparsing, _⟩ => ?_⟩
      rcases hstage h with ⟨hs, -⟩ | ⟨hs, -⟩
      all_goals
        rw [hparsing] at hs
        cases hs
    · obtain rfl := Option.some.inj (hv.symm.trans hn)
      refine ⟨fun R => (hok R).trans (Descriptor.exists_evaluator_eq_ok_iff hp), fun h => ?_,
        fun h R => ⟨fun hc => ?_, fun hc => ?_⟩, fun R error h hs => ?_⟩
      · simp only [herror]
        exact Descriptor.evaluator_of_unresolved hp h
      · rw [herror]
        exact Descriptor.evaluator_of_construction_error hp h (by rw [RewardType.construction, hc])
      · rw [herror]
        exact Descriptor.evaluator_of_construction_error hp h
          (RewardType.construction_of_two_le hc)
      · rcases hstage h with ⟨hr, -⟩ | ⟨-, -, hall⟩
        · rw [hs] at hr
          cases hr
        · exact hall
    · rcases hstage h with ⟨hs, hformula⟩ | ⟨hs, hformula, -⟩
      · simp [hs, hformula]
      · simp [hs, hformula]

/-- The second name does not resolve, and the reward type has no constructor: the name decides. -/
theorem lintReward_decides_outcome_score :
    let noReward : RewardType := ⟨"Title", "Title", [], .literal⟩
    (lintReward ⟨"Title", "bonus - score", 1⟩).variables? = some ["bonus", "score"] ∧
    ((Factory.history []).getOrCompile ⟨huntState, noReward, "bonus - score"⟩ huntState
      noReward).value.1 = .error (.nonNumericVariable "bonus - score" "score" "()") := by
  intro noReward
  have hparse : parse "bonus - score" =
      .ok (.binary .sub (.var "bonus" 0) (.var "score" 8)) := by cbv
  have hnames : (lintReward ⟨"Title", "bonus - score", 1⟩).variables? = some ["bonus", "score"] :=
    @variables?_lintReward_of_ok ⟨"Title", "bonus - score", 1⟩ _ hparse
  have hbonus : ((Catalog.build huntState).lookup "bonus - score" "bonus").isOk = true := by cbv
  have hscore : (Catalog.build huntState).lookup "bonus - score" "score" =
      .error (.nonNumericVariable "bonus - score" "score" "()") := by cbv
  have hunresolved : ¬huntState.Resolves "score" := by
    rw [← @Catalog.lookupError?_build_eq_none_iff huntState "bonus - score",
      Catalog.lookupError?_eq_some_iff.mpr hscore]
    simp
  obtain ⟨before, name, rest, error, hsplit, hbefore, hname, hlookup, hout⟩ :=
    ((lintReward_decides_outcome [] ⟨"Title", "bonus - score", 1⟩ huntState).2.2.1 _ hnames).2.1
      ⟨"score", by simp, hunresolved⟩
  refine ⟨hnames, ?_⟩
  rcases before with _ | ⟨_, _ | ⟨_, _⟩⟩
  · obtain ⟨rfl, -⟩ := List.cons.inj hsplit
    rw [hlookup] at hbonus
    cases hbonus
  · obtain ⟨rfl, -⟩ := List.cons.inj (List.cons.inj hsplit).2
    obtain rfl := Except.error.inj (hscore.symm.trans hlookup)
    exact hout noReward
  · simp at hsplit

end QuestFormula
