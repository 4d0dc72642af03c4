import QuestFormula.State.Catalog

/-!
Formulas whose variables are bound to the members of a state type. Each member that the formula
refers to has one slot, in the order of the first references, whichever of its names are used.
-/

namespace QuestFormula

inductive BoundExpr where
  | literal (value : Float)
  | slot (index : Nat)
  | binary (op : Operator) (left right : BoundExpr)
  | negate (operand : BoundExpr)
deriving DecidableEq

/-- A formula with a binding for each of its slots. -/
structure BoundFormula (S : StateType) where
  formula : String
  expr : BoundExpr
  bindings : List (Binding S)

namespace Catalog

variable {S : StateType}

/-- The slot of a binding, and the bindings with it: its place among them, or a new one after
them. -/
def allocate (bindings : List (Binding S)) (b : Binding S) : Nat × List (Binding S) :=
  match bindings.idxOf? b with
  | some slot => (slot, bindings)
  | none => (bindings.length, bindings ++ [b])

/-- An expression with its variables bound, and the bindings so far with those it adds. -/
def bind (c : Catalog S) (formula : String) (bindings : List (Binding S)) :
    Expr → Except FormulaError (BoundExpr × List (Binding S))
  | .literal value => .ok (.literal value, bindings)
  | .var name _ =>
    match c.lookup formula name with
    | .error e => .error e
    | .ok b =>
      let (slot, bindings) := allocate bindings b
      .ok (.slot slot, bindings)
  | .binary op left right =>
    match c.bind formula bindings left with
    | .error e => .error e
    | .ok (left, bindings) =>
      match c.bind formula bindings right with
      | .error e => .error e
      | .ok (right, bindings) => .ok (.binary op left right, bindings)
  | .negate operand =>
    match c.bind formula bindings operand with
    | .error e => .error e
    | .ok (operand, bindings) => .ok (.negate operand, bindings)

/-- The formula of an expression with its variables bound. -/
def resolve (c : Catalog S) (formula : String) (e : Expr) : Except FormulaError (BoundFormula S) :=
  match c.bind formula [] e with
  | .error e => .error e
  | .ok (expr, bindings) => .ok ⟨formula, expr, bindings⟩

end Catalog

end QuestFormula
