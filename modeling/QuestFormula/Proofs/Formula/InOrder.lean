import QuestFormula.Proofs.Evaluator.Reads
import QuestFormula.Proofs.Formula.Lexeme
import QuestFormula.Proofs.Lint.Compilation

/-! An expression read from left to right.  Its operands and operators in order, a minus sign before
its operand and any other operator between its two, are those of the tokens it was parsed from,
without the parentheses: `Derives.marks_append`.  Whether an operator stands before an operand or
between two is seen from the token before it, with no regard to the grammar.  So parsing drops,
doubles and moves no operand, and the names of an expression are those of its formula in order. -/

namespace QuestFormula

/-- A literal, or a variable at its position. -/
inductive Operand where
  | literal (value : Float)
  | var (name : String) (position : Nat)
deriving DecidableEq

/-- An operand, an operator that stands before its operand, or one between its two operands. -/
inductive Mark where
  | operand (o : Operand)
  | before (op : Operator)
  | between (op : Operator)
deriving DecidableEq

namespace Mark

def operand? : Mark → Option Operand
  | operand o => some o
  | _ => none

def before? : Mark → Option Operator
  | before op => some op
  | _ => none

def between? : Mark → Option Operator
  | between op => some op
  | _ => none

end Mark

namespace Expr

/-- The leaves, from left to right. -/
def operands : Expr → List Operand
  | literal value => [.literal value]
  | var name position => [.var name position]
  | binary _ left right => left.operands ++ right.operands
  | negate operand => operand.operands

/-- The operators of the binary nodes, in infix order. -/
def operators : Expr → List Operator
  | literal _ | var .. => []
  | binary op left right => left.operators ++ op :: right.operators
  | negate operand => operand.operators

/-- The number of minus signs before operands. -/
def minuses : Expr → Nat
  | literal _ | var .. => 0
  | binary _ left right => left.minuses + right.minuses
  | negate operand => operand.minuses + 1

/-- Operands and operators as they are written, without parentheses. -/
def marks : Expr → List Mark
  | literal value => [.operand (.literal value)]
  | var name position => [.operand (.var name position)]
  | binary op left right => left.marks ++ .between op :: right.marks
  | negate operand => .before .sub :: operand.marks

theorem filterMap_operand?_marks (e : Expr) : e.marks.filterMap Mark.operand? = e.operands := by
  induction e with
  | literal | var => rfl
  | binary op l r ihl ihr =>
    rw [marks, List.filterMap_append, List.filterMap_cons_none rfl, ihl, ihr, operands]
  | negate e ih => exact ih

theorem filterMap_between?_marks (e : Expr) : e.marks.filterMap Mark.between? = e.operators := by
  induction e with
  | literal | var => rfl
  | binary op l r ihl ihr =>
    have hop : Mark.between? (.between op) = some op := rfl
    rw [marks, List.filterMap_append, List.filterMap_cons_some hop, ihl, ihr, operators]
  | negate e ih => exact ih

theorem filterMap_before?_marks (e : Expr) :
    e.marks.filterMap Mark.before? = List.replicate e.minuses .sub := by
  induction e with
  | literal | var => rfl
  | binary op l r ihl ihr =>
    rw [marks, List.filterMap_append, List.filterMap_cons_none rfl, ihl, ihr, minuses,
      List.replicate_append_replicate]
  | negate e ih =>
    have hminus : Mark.before? (.before .sub) = some .sub := rfl
    rw [marks, List.filterMap_cons_some hminus, ih, minuses, List.replicate_succ]

/-- A binary node joins two operands into one. -/
theorem length_operators (e : Expr) : e.operators.length + 1 = e.operands.length := by
  induction e with
  | literal | var => rfl
  | binary op l r ihl ihr =>
    simp only [operators, operands, List.length_append, List.length_cons]
    omega
  | negate e ih => exact ih

end Expr

/-- The leaf that a number or a name becomes. -/
def PlacedToken.operand? (t : PlacedToken) : Option Operand :=
  match t.token with
  | .number value => some (.literal value)
  | .name text => some (.var text t.position)
  | _ => none

/-- Operands and operators of a formula, given whether an operand ends just before it.  An operator
is between two operands if it follows a number, a name or a closing parenthesis, and otherwise
before one. -/
def marksOf (afterOperand : Bool) : List PlacedToken → List Mark
  | [] => []
  | t :: ts =>
    match t.token with
    | .number value => .operand (.literal value) :: marksOf true ts
    | .name text => .operand (.var text t.position) :: marksOf true ts
    | .operator op => (if afterOperand then .between op else .before op) :: marksOf false ts
    | .openParen => marksOf false ts
    | .closeParen => marksOf true ts
    | .finish => marksOf afterOperand ts

theorem filterMap_operand?_marksOf (afterOperand : Bool) (ts : List PlacedToken) :
    (marksOf afterOperand ts).filterMap Mark.operand? = ts.filterMap PlacedToken.operand? := by
  induction ts generalizing afterOperand with
  | nil => rfl
  | cons t ts ih =>
    obtain ⟨token, position⟩ := t
    cases token with
    | number value => exact congrArg (Operand.literal value :: ·) (ih true)
    | name text => exact congrArg (Operand.var text position :: ·) (ih true)
    | operator op => cases afterOperand <;> exact ih false
    | openParen => exact ih false
    | closeParen => exact ih true
    | finish => exact ih afterOperand

/-- What a phrase derives has its operands and operators, before whatever follows it. -/
theorem Derives.marks_append {phrase : Phrase} {ts : List PlacedToken} {e : Expr}
    (h : Derives phrase ts e) (us : List PlacedToken) :
    marksOf false (ts ++ us) = e.marks ++ marksOf true us := by
  induction h generalizing us with
  | number | name => rfl
  | parens openedAt closedAt _ ih =>
    rw [List.append_assoc, List.cons_append]
    exact ih (⟨.closeParen, closedAt⟩ :: us)
  | primary _ ih | unary _ ih | factor _ ih => exact ih us
  | minus position _ ih => exact congrArg (Mark.before .sub :: ·) (ih us)
  | product position _ _ _ ihl ihr | sum position _ _ _ ihl ihr =>
    rw [List.append_assoc, ihl, List.cons_append, marksOf, ihr, Expr.marks, List.append_assoc,
      List.cons_append]
    rfl

/-! ### Names in the order of their first occurrence -/

theorem pairwise_idxOf_eraseDups {α : Type} [BEq α] [LawfulBEq α] (l : List α) :
    l.eraseDups.Pairwise fun a b => l.idxOf a < l.idxOf b := by
  induction l using List.reverseRecOn with
  | nil => exact .nil
  | append_singleton l b ih =>
    have hold : l.eraseDups.Pairwise fun a a' => (l ++ [b]).idxOf a < (l ++ [b]).idxOf a' :=
      ih.imp_of_mem fun ha ha' hlt => by
        rwa [List.idxOf_append_of_mem (List.mem_eraseDups.mp ha),
          List.idxOf_append_of_mem (List.mem_eraseDups.mp ha')]
    rw [List.eraseDups_append]
    by_cases hb : b ∈ l
    · simpa [List.removeAll, hb] using hold
    · have hnew : [b].removeAll l = [b] := by simp [List.removeAll, hb]
      rw [hnew]
      refine List.pairwise_append.mpr ⟨hold, List.pairwise_singleton _ b, fun a ha b' hb' => ?_⟩
      obtain rfl := List.mem_singleton.mp hb'
      have ha := List.mem_eraseDups.mp ha
      rw [List.idxOf_append_of_mem ha, List.idxOf_append_of_notMem hb]
      exact Nat.lt_add_right _ (List.idxOf_lt_length_of_mem ha)

/-- The tokens of a formula stand in it in their order. -/
theorem pairwise_position_of_tokenize {formula : String} {stream : TokenStream}
    (h : tokenize formula = .ok stream) :
    stream.tokens.Pairwise fun t t' => t.position < t'.position := by
  obtain ⟨ls, hsplits, rfl⟩ := tokenize_eq_ok_iff.mp h
  rw [List.pairwise_map]
  refine hsplits.ordered.imp_of_mem fun {l l'} hl _ hle => ?_
  have hpos := List.length_pos_iff.mpr (hsplits.tiles.ne_nil l hl)
  show l.position < l'.position
  omega

/-- The operands of an expression are the numbers and names of its formula in order, a name with its
position.  Its binary operators are the operators of the formula that follow an operand, in order,
and one fewer than the operands; any other operator is a minus sign, and the minus nodes are as many.
Hence its variables are the names of the formula by their first occurrence, each once, and the lint
reports these. -/
theorem parse_keeps_operands {formula : String} {e : Expr} (h : parse formula = .ok e) :
    ∃ stream, tokenize formula = .ok stream ∧
      (stream.tokens.Pairwise fun t t' => t.position < t'.position) ∧
      e.operands = stream.tokens.filterMap PlacedToken.operand? ∧
      e.operators.length + 1 = e.operands.length ∧
      e.marks = marksOf false stream.tokens ∧
      e.operators = (marksOf false stream.tokens).filterMap Mark.between? ∧
      List.replicate e.minuses .sub = (marksOf false stream.tokens).filterMap Mark.before? ∧
      let names := stream.tokens.filterMap (·.token.name?)
      (∀ name, name ∈ e.variableNames ↔ name ∈ names) ∧
      (e.variableNames.Pairwise fun a b => names.idxOf a < names.idxOf b) ∧
      ∀ r : RewardLine, r.formula = formula →
        (lintReward r).variables? = some e.variableNames := by
  obtain ⟨stream, htokenize, hderives⟩ := exists_derives_of_parse h
  have hmarks : marksOf false stream.tokens = e.marks := by
    simpa only [List.append_nil, marksOf] using hderives.marks_append []
  have hnames : e.names = stream.tokens.filterMap (·.token.name?) := hderives.names_eq
  refine ⟨stream, htokenize, pairwise_position_of_tokenize htokenize, ?_, e.length_operators,
    hmarks.symm, ?_, ?_, fun name => ?_, ?_, ?_⟩
  · rw [← e.filterMap_operand?_marks, ← hmarks, filterMap_operand?_marksOf]
  · rw [hmarks, e.filterMap_between?_marks]
  · rw [hmarks, e.filterMap_before?_marks]
  · rw [Expr.variableNames, hnames, List.mem_eraseDups]
  · rw [Expr.variableNames, hnames]
    exact pairwise_idxOf_eraseDups _
  · rintro r rfl
    exact variables?_lintReward_of_ok h

/-- A variable read twice, once below a minus sign and once after a subtraction. -/
theorem parse_keeps_operands_minuses :
    let formula := "-(b - a) * 2 - b"
    let e : Expr := .binary .sub
      (.binary .mul (.negate (.binary .sub (.var "b" 2) (.var "a" 6)))
        (.literal (floatOfInt 2))) (.var "b" 15)
    parse formula = .ok e ∧
    (∃ stream, tokenize formula = .ok stream ∧
      stream.tokens.filterMap PlacedToken.operand? =
        [.var "b" 2, .var "a" 6, .literal (floatOfInt 2), .var "b" 15] ∧
      (marksOf false stream.tokens).filterMap Mark.between? = [.sub, .mul, .sub] ∧
      (marksOf false stream.tokens).filterMap Mark.before? = [.sub]) ∧
    (lintReward ⟨"Title", formula, 1⟩).variables? = some ["b", "a"] := by
  intro formula e
  have hparse : parse formula = .ok e := by decide +kernel
  obtain ⟨stream, htokenize, -, hoperands, -, -, hbetween, hbefore, -, -, hlint⟩ :=
    parse_keeps_operands hparse
  exact ⟨hparse, ⟨stream, htokenize, hoperands.symm, hbetween.symm, hbefore.symm⟩,
    hlint ⟨"Title", formula, 1⟩ rfl⟩

end QuestFormula
