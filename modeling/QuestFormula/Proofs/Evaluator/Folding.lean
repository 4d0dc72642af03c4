import QuestFormula.Lint.Report
import QuestFormula.Proofs.Evaluator.Compilation

/-! Constants, computed twice.  `Expr.constant?` computes the value of a parsed expression without
variables; the compiler computes whatever has no slot while it makes code.  Both follow the tree: an
operation is a constant exactly if its operands are, and has the same value of theirs in both.
Binding turns variables into slots and nothing else, so the code of a bound expression is a constant
exactly if the expression was one, with the value that it had; and each operation that is computed
while compiling is counted once. -/

namespace QuestFormula

/-- The number that the code is, if it is one. -/
def Code.constant? : Code → Option Float
  | const value => some value
  | _ => none

namespace BoundExpr

/-- The expression and all expressions in it, each time they occur. -/
def subtrees : BoundExpr → List BoundExpr
  | literal value => [literal value]
  | slot index => [slot index]
  | binary op left right => binary op left right :: (left.subtrees ++ right.subtrees)
  | negate operand => negate operand :: operand.subtrees

def isOperation : BoundExpr → Bool
  | literal _ | slot _ => false
  | binary .. | negate _ => true

end BoundExpr

theorem isEmpty_append {α : Type} (xs ys : List α) :
    (xs ++ ys).isEmpty = (xs.isEmpty && ys.isEmpty) := by
  cases xs <;> rfl

/-! ### The compiler -/

namespace Code

theorem constant?_eq_some_iff {code : Code} {v : Float} :
    code.constant? = some v ↔ code = const v := by
  cases code <;> simp [constant?]

theorem constant?_combine (op : Operator) (l r : Code) :
    (combine op l r).1.constant? = do
      let a ← l.constant?
      let b ← r.constant?
      return op.apply a b := by
  cases l <;> cases r <;> rfl

theorem folded_combine (op : Operator) (l r : Code) :
    (combine op l r).2.folded = if l.constant?.isSome && r.constant?.isSome then 1 else 0 := by
  cases l <;> cases r <;> rfl

theorem constant?_negated (code : Code) :
    (negated code).1.constant? = code.constant?.map fun value => -value := by
  cases code <;> rfl

theorem folded_negated (code : Code) :
    (negated code).2.folded = if code.constant?.isSome then 1 else 0 := by
  cases code <;> rfl

/-- The code of an expression is a constant exactly if the expression has no slot. -/
theorem isSome_constant?_ofExpr (e : BoundExpr) :
    (ofExpr e).1.constant?.isSome = e.slots.isEmpty := by
  induction e with
  | literal | slot => rfl
  | binary op l r ihl ihr =>
    have hboth : (ofExpr (.binary op l r)).1.constant?.isSome =
        ((ofExpr l).1.constant?.isSome && (ofExpr r).1.constant?.isSome) := by
      simp only [ofExpr, constant?_combine]
      cases (ofExpr l).1.constant? <;> cases (ofExpr r).1.constant? <;> rfl
    rw [hboth, ihl, ihr, BoundExpr.slots, isEmpty_append]
  | negate e ih =>
    simp only [ofExpr, constant?_negated, Option.isSome_map]
    exact ih

/-- Compiling counts the operations without slots. -/
theorem folded_ofExpr (e : BoundExpr) :
    (ofExpr e).2.folded = e.subtrees.countP fun t => t.isOperation && t.slots.isEmpty := by
  induction e with
  | literal | slot => rfl
  | binary op l r ihl ihr =>
    have hsum : (ofExpr (.binary op l r)).2.folded = (ofExpr l).2.folded + (ofExpr r).2.folded +
        (combine op (ofExpr l).1 (ofExpr r).1).2.folded := rfl
    rw [hsum, folded_combine, isSome_constant?_ofExpr, isSome_constant?_ofExpr, ihl, ihr,
      BoundExpr.subtrees, List.countP_cons, List.countP_append, ← isEmpty_append]
    rfl
  | negate e ih =>
    have hsum : (ofExpr (.negate e)).2.folded =
        (ofExpr e).2.folded + (negated (ofExpr e).1).2.folded := rfl
    rw [hsum, folded_negated, isSome_constant?_ofExpr, ih, BoundExpr.subtrees, List.countP_cons]
    rfl

end Code

/-! ### The expression and its code -/

/-- An expression is a constant exactly if it has no names. -/
theorem Expr.isSome_constant? (e : Expr) : e.constant?.isSome = e.names.isEmpty := by
  induction e with
  | literal | var => rfl
  | binary op l r ihl ihr =>
    have hboth : (Expr.binary op l r).constant?.isSome =
        (l.constant?.isSome && r.constant?.isSome) := by
      rw [constant?]
      cases l.constant? <;> cases r.constant? <;> rfl
    rw [hboth, ihl, ihr, names, isEmpty_append]
  | negate e ih =>
    rw [constant?, Option.isSome_map]
    exact ih

theorem Expr.exists_constant?_iff (e : Expr) :
    (∃ v, e.constant? = some v) ↔ e.variableNames = [] := by
  rw [← Option.isSome_iff_exists, isSome_constant?, List.isEmpty_iff, variableNames]
  cases e.names with
  | nil => simp
  | cons => simp [List.eraseDups_cons]

namespace Catalog

variable {S : StateType} {c : Catalog S} {formula : String}

/-- Binding and then compiling finds the constant of the expression, if it is one. -/
theorem Binds.constant?_ofExpr {bs bs' : List (Binding S)} {e : Expr} {e' : BoundExpr}
    (h : c.Binds formula bs e e' bs') : (Code.ofExpr e').1.constant? = e.constant? := by
  induction h with
  | literal | var => rfl
  | binary op _ _ ihl ihr =>
    simp only [Code.ofExpr, Code.constant?_combine, ihl, ihr, Expr.constant?]
  | negate _ ih => simp only [Code.ofExpr, Code.constant?_negated, ih, Expr.constant?]

theorem exists_resolve_of_constant (c : Catalog S) (formula : String) {e : Expr} {v : Float}
    (h : e.constant? = some v) : ∃ bound, c.resolve formula e = .ok bound ∧ bound.bindings = [] ∧
      (Code.ofExpr bound.expr).1 = .const v := by
  have hnames : e.names = [] := by
    rw [← List.isEmpty_iff, ← e.isSome_constant?, h]
    rfl
  cases hr : c.resolve formula e with
  | error error =>
    rw [resolve_eq_error_iff, hnames] at hr
    cases hr
  | ok bound =>
    have hbinds := (resolve_eq_ok hr).2
    refine ⟨bound, rfl, List.eq_nil_iff_forall_not_mem.mpr fun b hb => ?_,
      Code.constant?_eq_some_iff.mp (hbinds.constant?_ofExpr.trans h)⟩
    rcases hbinds.mem_or_lookup hb with hb | ⟨name, hname, -⟩
    · cases hb
    · rw [hnames] at hname
      cases hname

/-- The evaluator of a constant has nothing to read. -/
theorem exists_compile_of_constant {e : Expr} {bound : BoundFormula S} {v : Float}
    (hr : c.resolve formula e = .ok bound) (hbindings : bound.bindings = [])
    (hcode : (Code.ofExpr bound.expr).1 = .const v) {R : RewardType} {parameter : ParameterType}
    (hR : R.constructors = [parameter]) :
    ∃ made savings, bound.compile R = .ok (made, savings) ∧
      ∀ state, made.trace state = ⟨v, []⟩ := by
  obtain ⟨made, savings, hcompile⟩ := compile_of_constructors hr hR
  refine ⟨made, savings, hcompile, fun state => ?_⟩
  obtain ⟨readers, _, hread, -, rfl⟩ := compile_eq_ok hr hcompile
  have hreaders : readers = [] := List.map_eq_nil_iff.mp (hread.1.trans hbindings)
  rw [Evaluator.trace_eq, hcode, hreaders]
  rfl

end Catalog

theorem Factory.exists_compileWith_of_constant {S : StateType} (c : Catalog S) {formula : String}
    {e : Expr} {v : Float} (hp : parse formula = .ok e) (hv : e.constant? = some v) {R : RewardType}
    {parameter : ParameterType} (hR : R.constructors = [parameter]) :
    ∃ made savings, compileWith c R formula = .ok (made, savings) ∧
      ∀ state, made.evaluateRaw state = v := by
  obtain ⟨bound, hr, hbindings, hcode⟩ := c.exists_resolve_of_constant formula hv
  obtain ⟨made, savings, hcompile, htrace⟩ :=
    Catalog.exists_compile_of_constant hr hbindings hcode hR
  exact ⟨made, savings, compileWith_eq_ok_iff.mpr ⟨e, bound, hp, hr, hcompile⟩,
    fun state => congrArg Traced.value (htrace state)⟩

/-! ### The lint -/

theorem MemberType.nonempty_value (t : MemberType) : Nonempty t.Value :=
  match t with
  | .readable (.number t) => ⟨(default : t.Value)⟩
  | .readable .truth => ⟨false⟩
  | .readable .text => ⟨""⟩
  | .readable (.parameter t) => ⟨(default : Parameter t.Value)⟩
  | .unreadable => ⟨()⟩

theorem Declarations.nonempty_state (ds : Declarations) : Nonempty ds.State := by
  induction ds with
  | nil => exact ⟨()⟩
  | member m rest ih =>
    obtain ⟨value⟩ := m.type.nonempty_value
    exact ih.map fun state => (value, state)
  | base _ _ _ ihe ihr =>
    obtain ⟨embedded⟩ := ihe
    exact ihr.map fun state => (embedded, state)

theorem nonFiniteConstant_mem_lintReward_iff (r : RewardLine) :
    .nonFiniteConstant ∈ (lintReward r).warnings ↔ ∃ e v, parse r.formula = .ok e ∧
      e.constant? = some v ∧ (floatValue v).isFinite = false := by
  have hunknown : .nonFiniteConstant ∉
      if r.rewardType ∈ builtinKinds then [] else [LintWarning.notBuiltin r.rewardType] := by
    split <;> simp
  rw [lintReward]
  cases parse r.formula with
  | error error => simp [hunknown]
  | ok e =>
    cases he : e.constant? with
    | none => simp [hunknown, he]
    | some v => simp [hunknown, he]

/-- The two agree: an expression has a constant exactly if it has no variables, and then it binds to
nothing under every catalog, and its evaluators read nothing and give that constant; in every case
the code of what it binds to is the constant that it has itself, if any.  The compiler makes a
constant of exactly the bound expressions without slots, at every place in an expression, and counts
the operations among them.  So the lint warns of a constant that is not finite exactly if the
formula has no variables and its evaluator never gives a finite result. -/
theorem folds_agree :
    (∀ e : Expr, (∃ v, e.constant? = some v) ↔ e.variableNames = []) ∧
    (∀ (S : StateType) (c : Catalog S) (formula : String) (e : Expr),
      (∀ bound, c.resolve formula e = .ok bound →
        (Code.ofExpr bound.expr).1.constant? = e.constant?) ∧
      ∀ v, e.constant? = some v → ∃ bound, c.resolve formula e = .ok bound ∧ bound.bindings = [] ∧
        ∀ R parameter, R.constructors = [parameter] →
          ∃ made savings, bound.compile R = .ok (made, savings) ∧
            ∀ state, made.trace state = ⟨v, []⟩ ∧ made.evaluateRaw state = v) ∧
    (∀ e : BoundExpr, (∀ t ∈ e.subtrees, (∃ v, (Code.ofExpr t).1 = .const v) ↔ t.slots = []) ∧
      (Code.ofExpr e).2.folded = e.subtrees.countP fun t => t.isOperation && t.slots.isEmpty) ∧
    ∀ (r : RewardLine) (S : StateType) (c : Catalog S) (R : RewardType) (parameter : ParameterType),
      R.constructors = [parameter] → (.nonFiniteConstant ∈ (lintReward r).warnings ↔
        ∃ e made savings, parse r.formula = .ok e ∧ e.variableNames = [] ∧
          Factory.compileWith c R r.formula = .ok (made, savings) ∧
          ∀ state, (floatValue (made.evaluateRaw state)).isFinite = false) := by
  refine ⟨Expr.exists_constant?_iff, fun S c formula e => ⟨fun bound hr => ?_, fun v hv => ?_⟩,
    fun e => ⟨fun t _ => ?_, Code.folded_ofExpr e⟩, fun r S c R parameter hR => ?_⟩
  · exact (Catalog.resolve_eq_ok hr).2.constant?_ofExpr
  · obtain ⟨bound, hr, hbindings, hcode⟩ := c.exists_resolve_of_constant formula hv
    refine ⟨bound, hr, hbindings, fun R parameter hR => ?_⟩
    obtain ⟨made, savings, hcompile, htrace⟩ :=
      Catalog.exists_compile_of_constant hr hbindings hcode hR
    exact ⟨made, savings, hcompile, fun state =>
      ⟨htrace state, congrArg Traced.value (htrace state)⟩⟩
  · simp only [← Code.constant?_eq_some_iff]
    rw [← Option.isSome_iff_exists, Code.isSome_constant?_ofExpr, List.isEmpty_iff]
  · rw [nonFiniteConstant_mem_lintReward_iff]
    constructor
    · rintro ⟨e, v, hp, hv, hfinite⟩
      obtain ⟨made, savings, hcompile, hvalue⟩ :=
        Factory.exists_compileWith_of_constant c hp hv hR
      refine ⟨e, made, savings, hp, e.exists_constant?_iff.mp ⟨v, hv⟩, hcompile, fun state => ?_⟩
      rw [hvalue, hfinite]
    · rintro ⟨e, made, savings, hp, hnames, hcompile, hfinite⟩
      obtain ⟨v, hv⟩ := e.exists_constant?_iff.mpr hnames
      obtain ⟨made', savings', hcompile', hvalue⟩ :=
        Factory.exists_compileWith_of_constant c hp hv hR
      obtain ⟨rfl, rfl⟩ := Prod.mk.inj (Except.ok.inj (hcompile.symm.trans hcompile'))
      obtain ⟨state⟩ := S.declarations.nonempty_state
      exact ⟨e, v, hp, hv, hvalue state ▸ hfinite state⟩

/-- A division by zero below a minus sign: no state makes the result finite, and next to a member
both operations are computed while compiling. -/
theorem folds_agree_infinity :
    let hunt := Catalog.build huntState
    let title : RewardType := ⟨"Title", "Title", [.text], .literal⟩
    let quotient : Expr := .binary .div (.literal (floatOfInt 1)) (.literal (floatOfInt 0))
    let bound : BoundExpr := .binary .div (.literal (floatOfInt 1)) (.literal (floatOfInt 0))
    (∃ whole, hunt.resolve "-(1 / 0)" (.negate quotient) = .ok whole ∧ whole.bindings = [] ∧
      ∃ made savings, whole.compile title = .ok (made, savings) ∧
        ∀ state, made.evaluateRaw state = -(floatOfInt 1 / floatOfInt 0)) ∧
    (Code.ofExpr (.binary .mul (.slot 0) (.negate bound))).2.folded = 2 ∧
    ∃ e made savings, parse "-(1 / 0)" = .ok e ∧ e.variableNames = [] ∧
      Factory.compileWith hunt title "-(1 / 0)" = .ok (made, savings) ∧
      ∀ state, (floatValue (made.evaluateRaw state)).isFinite = false := by
  intro hunt title quotient bound
  have hlint : .nonFiniteConstant ∈ (lintReward ⟨"xp", "-(1 / 0)", 1⟩).warnings := by
    decide +kernel
  obtain ⟨whole, hresolve, hbindings, hmade⟩ :=
    (folds_agree.2.1 huntState hunt "-(1 / 0)" (.negate quotient)).2 _ rfl
  obtain ⟨made, savings, hcompile, hvalue⟩ := hmade title .text rfl
  refine ⟨⟨whole, hresolve, hbindings, made, savings, hcompile, fun state => (hvalue state).2⟩,
    ?_, ?_⟩
  · exact (folds_agree.2.2.1 (.binary .mul (.slot 0) (.negate bound))).2
  · exact (folds_agree.2.2.2 _ huntState hunt title .text rfl).mp hlint

end QuestFormula
