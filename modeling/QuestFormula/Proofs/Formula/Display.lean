import QuestFormula.Proofs.Formula.Lexer
import QuestFormula.Proofs.Formula.Parser

/-! Expressions written out and read back.  The text of a well-formed expression, with finite literals
without sign and with identifiers for names, is lexed into tokens of the same expression, by
induction on it.  Any other expression has the text of the well-formed one that it is printed as: a
sign becomes a minus, and `inf` and `NaN` become names.  So an expression comes back from its text
exactly if it is well-formed.  What the parser gives is well-formed but for infinite literals. -/

namespace QuestFormula

namespace Expr

/-- The expressions are alike but for the positions of their variables, with literals that are the
same as the relation has it. -/
inductive Agrees (same : Float → Float → Prop) : Expr → Expr → Prop
  | literal {x y : Float} (h : same x y) : Agrees same (.literal x) (.literal y)
  | var (name : String) (position position' : Nat) :
      Agrees same (.var name position) (.var name position')
  | binary (op : Operator) {l l' r r' : Expr} (left : Agrees same l l') (right : Agrees same r r') :
      Agrees same (.binary op l r) (.binary op l' r')
  | negate {e e' : Expr} (operand : Agrees same e e') : Agrees same (.negate e) (.negate e')

/-- Every literal and every name of the expression is of a kind. -/
def Leaves (literal : Float → Prop) (name : String → Prop) : Expr → Prop
  | .literal value => literal value
  | .var text _ => name text
  | .binary _ left right => left.Leaves literal name ∧ right.Leaves literal name
  | .negate operand => operand.Leaves literal name

/-- Every literal is finite with its sign bit clear, and every name is an identifier. -/
def WellFormed (e : Expr) : Prop := e.Leaves IsUnsignedFinite IsIdentifier

theorem toList_display_binary (op : Operator) (l r : Expr) :
    (display (.binary op l r)).toList =
      '(' :: (l.display.toList ++ ' ' :: op.symbol :: ' ' :: (r.display.toList ++ [')'])) := by
  simp [display, toString]

theorem toList_display_negate (e : Expr) :
    (display (.negate e)).toList = '-' :: e.display.toList := by
  simp [display, toString]

end Expr

theorem symbolToken?_symbol (op : Operator) : symbolToken? op.symbol = some (.operator op) := by
  cases op <;> rfl

theorem Lexes.parse {formula : String} {ts : List PlacedToken} {e : Expr}
    (h : Lexes formula.toList 0 ts) (he : Derives .expression ts e) : parse formula = .ok e := by
  rw [parse_of_tokenize h.tokenize, TokenStream.parse_eq_ok_iff.mpr he]
  rfl

/-- Two operands with an operator between them are an expression in parentheses. -/
theorem Derives.parens_binary {ts us : List PlacedToken} {l r : Expr} (op : Operator)
    (hl : Derives .unary ts l) (hr : Derives .unary us r) (openedAt position closedAt : Nat) :
    Derives .unary (⟨.openParen, openedAt⟩ :: (ts ++ ⟨.operator op, position⟩ :: us) ++
      [⟨.closeParen, closedAt⟩]) (.binary op l r) := by
  refine .primary (.parens openedAt closedAt ?_)
  cases hop : op.isProduct with
  | true => exact .factor (.product position (.unary hl) hop hr)
  | false => exact .sum position (.factor (.unary hl)) hop (.unary hr)

namespace Expr

/-- The text of a well-formed expression is read as tokens of the same expression. -/
theorem WellFormed.exists_lexes {e : Expr} (h : e.WellFormed) (position : Nat) :
    ∃ ts e', Lexes e.display.toList position ts ∧ Derives .unary ts e' ∧ e'.Agrees Eq e := by
  induction e generalizing position with
  | literal x =>
    obtain ⟨d, hd, hvalue⟩ := exists_plainText_displayFloat h
    exact ⟨_, _, .number hd position, .primary (.number _ _), .literal hvalue⟩
  | var text =>
    exact ⟨_, _, .name h position, .primary (.name _ _), .var _ _ _⟩
  | binary op l r ihl ihr =>
    obtain ⟨ts, l', hts, hl, hl'⟩ := ihl h.1 (position + 1)
    obtain ⟨us, r', hus, hr, hr'⟩ := ihr h.2 (position + 1 + l.display.toList.length + 1 + 1 + 1)
    rw [toList_display_binary]
    -- From the closing parenthesis backward, each piece goes before what is lexed already.
    have hclose (closedAt : Nat) : Lexes [')'] closedAt [⟨.closeParen, closedAt⟩] :=
      .symbol rfl (.nil _)
    have htail := ((hus.append rfl (hclose _)).blank (c := ' ') rfl).symbol (symbolToken?_symbol op)
    have hall := (hts.append rfl (htail.blank (c := ' ') rfl)).symbol (c := '(') rfl
    refine ⟨_, _, hall, ?_, .binary op hl' hr'⟩
    simpa using Derives.parens_binary op hl hr position _ _
  | negate e ih =>
    obtain ⟨ts, e', hts, he, he'⟩ := ih h (position + 1)
    rw [toList_display_negate]
    exact ⟨_, _, hts.symbol rfl, .minus position he, .negate he'⟩

theorem WellFormed.parse_display {e : Expr} (h : e.WellFormed) :
    ∃ e', parse e.display = .ok e' ∧ e'.Agrees Eq e := by
  obtain ⟨ts, e', hts, he, hagrees⟩ := h.exists_lexes 0
  exact ⟨e', hts.parse (.factor (.unary he)), hagrees⟩

/-! ### Every expression is printed as a well-formed one -/

/-- The expression with a minus sign before it, if there is one. -/
def signed (negative : Bool) (e : Expr) : Expr := if negative then .negate e else e

/-- What the text of a number reads as: a literal only if the number is finite, below a minus sign
if it has one. -/
def printedLiteral (x : Float) : Expr :=
  match floatValue x with
  | .nan => .var "NaN" 0
  | .infinite negative => signed negative (.var "inf" 0)
  | .finite negative _ _ => signed negative
    (.literal (floatOfPattern false (x.toBits.toNat % BinaryFormat.binary64.signBit)))

/-- What the text of an expression reads as. -/
def printed : Expr → Expr
  | literal value => printedLiteral value
  | var name position => .var name position
  | binary op left right => .binary op left.printed right.printed
  | negate operand => .negate operand.printed

theorem display_signed (negative : Bool) (e : Expr) :
    (signed negative e).display.toList = if negative then '-' :: e.display.toList
      else e.display.toList := by
  cases negative with
  | false => rfl
  | true => exact toList_display_negate e

theorem leaves_signed {literal : Float → Prop} {name : String → Prop} {negative : Bool} {e : Expr} :
    (signed negative e).Leaves literal name ↔ e.Leaves literal name := by
  cases negative <;> rfl

theorem display_printedLiteral (x : Float) : (printedLiteral x).display = displayFloat x := by
  rw [← String.toList_inj, printedLiteral, displayFloat, BinaryFormat.display, ← floatValue]
  cases hvalue : floatValue x with
  | nan => rfl
  | infinite negative =>
    dsimp only
    rw [display_signed, String.toList_ofList]
    rfl
  | finite negative significand exponent =>
    have hlt := lt_infinity_of_floatValue hvalue
    dsimp only
    rw [display_signed, display, displayFloat_eq (isUnsignedFinite_floatOfPattern hlt),
      String.toList_ofList, String.toList_ofList, toBits_floatOfPattern hlt.le]

theorem display_printed (e : Expr) : e.printed.display = e.display := by
  induction e with
  | literal x => exact display_printedLiteral x
  | var => rfl
  | binary op l r ihl ihr => rw [printed, display, display, ihl, ihr]
  | negate e ih => rw [printed, display, display, ih]

theorem wellFormed_printedLiteral (x : Float) : (printedLiteral x).WellFormed := by
  rw [printedLiteral, WellFormed]
  cases hvalue : floatValue x with
  | nan => exact ⟨'N', ['a', 'N'], rfl, rfl, List.all_eq_true.mp rfl⟩
  | infinite negative => exact leaves_signed.mpr ⟨'i', ['n', 'f'], rfl, rfl, List.all_eq_true.mp rfl⟩
  | finite negative significand exponent =>
    exact leaves_signed.mpr (isUnsignedFinite_floatOfPattern (lt_infinity_of_floatValue hvalue))

theorem wellFormed_printed {e : Expr} {literal : Float → Prop}
    (h : e.Leaves literal IsIdentifier) : e.printed.WellFormed := by
  induction e with
  | literal x => exact wellFormed_printedLiteral x
  | var => exact h
  | binary op l r ihl ihr => exact ⟨ihl h.1, ihr h.2⟩
  | negate e ih => exact ih h

/-- The text of an expression with identifiers for names is always read, as what it means. -/
theorem exists_parse_display {e : Expr} {literal : Float → Prop}
    (h : e.Leaves literal IsIdentifier) :
    ∃ e', parse e.display = .ok e' ∧ e'.Agrees Eq e.printed := by
  rw [← display_printed]
  exact (wellFormed_printed h).parse_display

/-- A literal that is not both finite and without sign is not what its text reads as. -/
theorem isUnsignedFinite_of_agrees_printedLiteral {x : Float} {same : Float → Float → Prop}
    {y : Float} (h : Agrees same (.literal y) (printedLiteral x)) : IsUnsignedFinite x := by
  rw [printedLiteral] at h
  cases hvalue : floatValue x with
  | nan =>
    rw [hvalue] at h
    cases h
  | infinite negative =>
    rw [hvalue] at h
    cases negative <;> cases h
  | finite negative significand exponent =>
    rw [hvalue] at h
    cases negative with
    | true => cases h
    | false => exact ⟨significand, exponent, hvalue⟩

/-- An expression that reads as itself has finite literals without sign, whatever sameness of
literals is meant. -/
theorem leaves_of_agrees_printed {e e' : Expr} {same : Float → Float → Prop}
    {name : String → Prop} (hread : e'.Agrees Eq e.printed) (h : e'.Agrees same e)
    (hnames : e'.Leaves IsUnsigned name) : e.Leaves IsUnsignedFinite name := by
  -- Only the shapes matter: `e'` has literals where `e` does, and `printed` keeps no other ones.
  induction h with
  | literal h => exact isUnsignedFinite_of_agrees_printedLiteral hread
  | var => exact hnames
  | binary op _ _ ihl ihr =>
    cases hread with
    | binary _ hl hr => exact ⟨ihl hl hnames.1, ihr hr hnames.2⟩
  | negate _ ih =>
    cases hread with
    | negate he => exact ih he hnames

end Expr

/-! ### What was read -/

/-- Every literal of an expression that was read is without sign, and every name an identifier. -/
theorem Derives.leaves {phrase : Phrase} {ts : List PlacedToken} {e : Expr}
    (h : Derives phrase ts e) (hts : ∀ t ∈ ts, t.token.IsLexed) :
    e.Leaves IsUnsigned IsIdentifier := by
  induction h with
  | number => exact hts _ (List.mem_singleton_self _)
  | name => exact hts _ (List.mem_singleton_self _)
  | parens _ _ _ ih => exact ih fun t ht => hts t (by simp [ht])
  | primary _ ih | unary _ ih | factor _ ih => exact ih hts
  | minus _ _ ih => exact ih fun t ht => hts t (List.mem_cons_of_mem _ ht)
  | product _ _ _ _ ihl ihr | sum _ _ _ _ ihl ihr =>
    exact ⟨ihl fun t ht => hts t (List.mem_append_left _ ht),
      ihr fun t ht => hts t (List.mem_append_right _ (List.mem_cons_of_mem _ ht))⟩

theorem leaves_of_parse {formula : String} {e : Expr} (h : parse formula = .ok e) :
    e.Leaves IsUnsigned IsIdentifier := by
  obtain ⟨stream, hts, hderives⟩ := exists_derives_of_parse h
  exact hderives.leaves (Cursor.isLexed_of_tokens hts)

namespace Expr

/-! ### What comes back from its text -/

theorem Agrees.names {same : Float → Float → Prop} {literal : Float → Prop}
    {name : String → Prop} {e e' : Expr} (h : e'.Agrees same e) (hleaves : e'.Leaves literal name) :
    e.Leaves (fun _ => True) name := by
  induction h with
  | literal => trivial
  | var => exact hleaves
  | binary _ _ _ ihl ihr => exact ⟨ihl hleaves.1, ihr hleaves.2⟩
  | negate _ ih => exact ih hleaves

theorem Agrees.mono {same same' : Float → Float → Prop} {literal : Float → Prop}
    {name : String → Prop} {e e' : Expr} (h : e'.Agrees same e) (hleaves : e.Leaves literal name)
    (hmono : ∀ x y, literal y → same x y → same' x y) : e'.Agrees same' e := by
  induction h with
  | literal h => exact .literal (hmono _ _ hleaves h)
  | var => exact .var _ _ _
  | binary op _ _ ihl ihr => exact .binary op (ihl hleaves.1) (ihr hleaves.2)
  | negate _ ih => exact .negate (ih hleaves)

theorem exists_parse_display_iff {e : Expr} {same : Float → Float → Prop}
    (hsame : ∀ x, IsUnsignedFinite x → same x x) :
    (∃ e', parse e.display = .ok e' ∧ e'.Agrees same e) ↔ e.WellFormed := by
  constructor
  · rintro ⟨e', hparse, hagrees⟩
    have hleaves := leaves_of_parse hparse
    obtain ⟨e'', hparse', hread⟩ := exists_parse_display (hagrees.names hleaves)
    obtain rfl := Except.ok.inj (hparse.symm.trans hparse')
    exact leaves_of_agrees_printed hread hagrees hleaves
  · intro h
    obtain ⟨e', hparse, hagrees⟩ := h.parse_display
    refine ⟨e', hparse, hagrees.mono h ?_⟩
    rintro x _ hx rfl
    exact hsame x hx

end Expr

/-- Writing an expression out and reading the text gives the expression back exactly if its literals
are finite without sign and its names are identifiers, for the same bits of literals as for the
equality of numbers. -/
theorem parse_display_iff_wellFormed (e : Expr) :
    ((∃ e', parse e.display = .ok e' ∧ e'.Agrees Eq e) ↔ e.WellFormed) ∧
    ((∃ e', parse e.display = .ok e' ∧ e'.Agrees (fun x y => x == y) e) ↔ e.WellFormed) :=
  ⟨Expr.exists_parse_display_iff fun _ _ => rfl,
    Expr.exists_parse_display_iff fun _ h => h.beq_self⟩

/-- Zero below a minus and negative zero have one text, which is that of the first. -/
theorem parse_display_iff_wellFormed_zero :
    (∃ e', parse (Expr.display (.negate (.literal (floatOfPattern false 0)))) = .ok e' ∧
      e'.Agrees Eq (.negate (.literal (floatOfPattern false 0)))) ∧
    ¬∃ e', parse (Expr.display (.literal (floatOfPattern true 0))) = .ok e' ∧
      e'.Agrees (fun x y => x == y) (.literal (floatOfPattern true 0)) := by
  refine ⟨(parse_display_iff_wellFormed _).1.mpr (isUnsignedFinite_floatOfPattern (by decide)),
    fun h => ?_⟩
  have hwellFormed : IsUnsignedFinite (floatOfPattern true 0) :=
    (parse_display_iff_wellFormed _).2.mp h
  exact absurd (isUnsignedFinite_iff.mp hwellFormed) (by decide +kernel)

theorem Expr.wellFormed_iff_of_leaves {e : Expr} (h : e.Leaves IsUnsigned IsIdentifier) :
    e.WellFormed ↔ e.Leaves (fun x => (floatValue x).isFinite) fun _ => True := by
  induction e with
  | literal x => exact isUnsignedFinite_iff_isFinite h
  | var => exact ⟨fun _ => trivial, fun _ => h⟩
  | binary op l r ihl ihr => exact and_congr (ihl h.1) (ihr h.2)
  | negate e ih => exact ih h

/-- One and four hundred zeros are beyond the range of numbers. -/
theorem parse_overflow :
    parse (String.ofList ('1' :: List.replicate 400 '0')) =
      .ok (.literal (floatOfPattern false BinaryFormat.binary64.infinity)) := by
  have hdigits : ∀ c ∈ '1' :: List.replicate 400 '0', c.isDigit :=
    List.forall_mem_cons.mpr ⟨rfl, isDigit_of_mem_zeros⟩
  have hlexes := Lexes.number (.whole (List.cons_ne_nil _ _) hdigits) 0
  have hvalue : 10 ^ 400 ≤ (Decimal.ofDigits ('1' :: List.replicate 400 '0') [] 0).value := by
    rw [Decimal.ofDigits, Decimal.value, List.append_nil, Nat.ofDigitChars_cons,
      Nat.ofDigitChars_replicate_zero, show 10 * 0 + ('1'.toNat - '0'.toNat) = 1 from rfl]
    simp only [List.length_nil, Nat.cast_zero, sub_self, zpow_zero, mul_one, Nat.cast_pow,
      Nat.cast_ofNat, le_refl]
  rw [Decimal.toFloat, Decimal.nearest_eq_rounded, Decimal.rounded_eq_infinity hvalue] at hlexes
  rw [← String.toList_ofList (l := '1' :: List.replicate 400 '0')] at hlexes
  exact hlexes.parse (.factor (.unary (.primary (.number _ _))))

/-- What was read can be written out and read again, as what its text means; and that is the same
expression exactly if every literal of it is finite. -/
theorem parse_display_of_parse {formula : String} {e : Expr} (h : parse formula = .ok e) :
    (∃ e', parse e.display = .ok e' ∧ e'.Agrees Eq e.printed) ∧
    ((∃ e', parse e.display = .ok e' ∧ e'.Agrees Eq e) ↔
      e.Leaves (fun x => (floatValue x).isFinite) fun _ => True) := by
  have hleaves := leaves_of_parse h
  refine ⟨Expr.exists_parse_display hleaves, ?_⟩
  rw [← Expr.wellFormed_iff_of_leaves hleaves]
  exact Expr.exists_parse_display_iff fun _ _ => rfl

/-- The text of an infinite literal reads as a name. -/
theorem parse_display_of_parse_overflow :
    ∃ e, parse (String.ofList ('1' :: List.replicate 400 '0')) = .ok e ∧
      ∃ e', parse e.display = .ok e' ∧ e'.Agrees Eq (.var "inf" 0) := by
  obtain ⟨e', hparse, hread⟩ := (parse_display_of_parse parse_overflow).1
  rw [Expr.printed, Expr.printedLiteral, floatValue_infinity] at hread
  exact ⟨_, parse_overflow, e', hparse, hread⟩

/-- A formula that is read, but whose expression does not come back from its text. -/
theorem parse_display_ne_overflow :
    ∃ e, parse (String.ofList ('1' :: List.replicate 400 '0')) = .ok e ∧
      ¬∃ e', parse e.display = .ok e' ∧ e'.Agrees Eq e := by
  refine ⟨_, parse_overflow, fun h => ?_⟩
  obtain ⟨significand, exponent, hvalue⟩ := (Expr.exists_parse_display_iff fun _ _ => rfl).mp h
  rw [floatValue_infinity] at hvalue
  cases hvalue

end QuestFormula
