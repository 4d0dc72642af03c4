import Mathlib
import QuestFormula.Formula.Error
import QuestFormula.Proofs.Formula.Grammar

/-! The parser accepts exactly the expressions of the grammar.  Soundness is an invariant of its
state, `ParseState.Reads`: the tokens so far are what the open parentheses and the work pending
between them stand for.  Completeness follows a derivation, from any pending work and below any open
parentheses: `Runs` says for each kind of phrase what its tokens do to the state.  A list of tokens
has at most one expression, since the parser is a function. -/

namespace QuestFormula

/-! ### Soundness -/

/-- The tokens are a left operand, a phrase followed by an operator of its level, or there is none
and they are empty. -/
def LeftOperand (phrase : Phrase) (tight : Bool) :
    Option (Expr × Operator) → List PlacedToken → Prop
  | none, ts => ts = []
  | some (l, op), ts => op.isProduct = tight ∧
      ∃ us position, ts = us ++ [⟨.operator op, position⟩] ∧ Derives phrase us l

/-- The tokens are `count` minus signs. -/
def Minuses (count : Nat) (ts : List PlacedToken) : Prop :=
  ts.map PlacedToken.token = List.replicate count (.operator .sub)

theorem LeftOperand.factor {left : Option (Expr × Operator)} {ts us : List PlacedToken} {e : Expr}
    (hl : LeftOperand .factor true left ts) (hr : Derives .unary us e) :
    Derives .factor (ts ++ us) (completed left e) := by
  match left, hl with
  | none, hl =>
    subst hl
    exact .unary hr
  | some (l, op), ⟨tight, vs, position, hts, hd⟩ =>
    subst hts
    rw [List.append_assoc, List.singleton_append]
    exact .product position hd tight hr

theorem LeftOperand.expression {left : Option (Expr × Operator)} {ts us : List PlacedToken}
    {e : Expr} (hl : LeftOperand .expression false left ts) (hr : Derives .factor us e) :
    Derives .expression (ts ++ us) (completed left e) := by
  match left, hl with
  | none, hl =>
    subst hl
    exact .factor hr
  | some (l, op), ⟨loose, vs, position, hts, hd⟩ =>
    subst hts
    rw [List.append_assoc, List.singleton_append]
    exact .sum position hd loose hr

theorem Minuses.unary {count : Nat} {ts us : List PlacedToken} {e : Expr} (hm : Minuses count ts)
    (h : Derives .unary us e) : Derives .unary (ts ++ us) (negated count e) := by
  induction count generalizing ts with
  | zero =>
    obtain rfl : ts = [] := by simpa [Minuses] using hm
    exact h
  | succ count ih =>
    match ts, hm with
    | ⟨token, position⟩ :: ts, hm =>
      simp only [Minuses, List.map_cons, List.replicate_succ, List.cons.injEq] at hm
      obtain ⟨rfl, hm⟩ := hm
      exact .minus position (ih hm)

/-- The tokens are what the pending work stands for while an operand is due. -/
def Pending.Reads (p : Pending) (ts : List PlacedToken) : Prop :=
  ∃ sum product minuses, ts = sum ++ product ++ minuses ∧
    LeftOperand .expression false p.sum sum ∧ LeftOperand .factor true p.product product ∧
    Minuses p.minuses minuses

/-- The tokens are what the pending work and the product so far stand for. -/
def Pending.ReadsFactor (p : Pending) (factor : Expr) (ts : List PlacedToken) : Prop :=
  ∃ sum rest, ts = sum ++ rest ∧ LeftOperand .expression false p.sum sum ∧
    Derives .factor rest factor

/-- The tokens are what the open parentheses, the innermost first, stand for with the work pending
before them. -/
def OuterReads : List (Nat × Pending) → List PlacedToken → Prop
  | [], ts => ts = []
  | (openedAt, pending) :: outer, ts => ∃ us vs, ts = us ++ vs ++ [⟨.openParen, openedAt⟩] ∧
      OuterReads outer us ∧ pending.Reads vs

/-- The tokens are those that lead to the state. -/
def ParseState.Reads (s : ParseState) (ts : List PlacedToken) : Prop :=
  ∃ us vs, ts = us ++ vs ∧ OuterReads s.outer us ∧
    match s.factor with
    | none => s.pending.Reads vs
    | some factor => s.pending.ReadsFactor factor vs

theorem Pending.reads_empty : Pending.empty.Reads [] := ⟨[], [], [], rfl, rfl, rfl, rfl⟩

/-- An operand completes the minus signs and the product before it. -/
theorem Pending.Reads.factor {p : Pending} {ts us : List PlacedToken} {e : Expr}
    (hp : p.Reads ts) (h : Derives .primary us e) : p.ReadsFactor (p.factor e) (ts ++ us) := by
  obtain ⟨sum, product, minuses, rfl, hs, hf, hm⟩ := hp
  refine ⟨sum, product ++ (minuses ++ us), by simp, hs, ?_⟩
  exact hf.factor (hm.unary (.primary h))

theorem Pending.ReadsFactor.total {p : Pending} {factor : Expr} {ts : List PlacedToken}
    (h : p.ReadsFactor factor ts) : Derives .expression ts (p.total factor) := by
  obtain ⟨sum, rest, rfl, hs, hf⟩ := h
  exact hs.expression hf

theorem Minuses.push {count : Nat} {ts : List PlacedToken} (h : Minuses count ts)
    (position : Nat) : Minuses (count + 1) (ts ++ [⟨.operator .sub, position⟩]) := by
  rw [Minuses, List.map_append, h, List.replicate_succ']
  rfl

namespace ParseState

theorem reads_start : start.Reads [] := ⟨[], [], rfl, rfl, Pending.reads_empty⟩

theorem reads_reduce {p : Pending} {outer : List (Nat × Pending)} {us vs ws : List PlacedToken}
    {e : Expr} (ho : OuterReads outer us) (hp : p.Reads vs) (he : Derives .primary ws e) :
    (reduce p outer e).Reads (us ++ vs ++ ws) :=
  ⟨us, vs ++ ws, by simp, ho, hp.factor he⟩

theorem reads_stepOperand {pending : Pending} {outer : List (Nat × Pending)} {s : ParseState}
    {t : PlacedToken} {us vs : List PlacedToken} (ho : OuterReads outer us) (hp : pending.Reads vs)
    (h : stepOperand ⟨pending, outer, none⟩ t = .ok s) : s.Reads (us ++ vs ++ [t]) := by
  obtain ⟨token, position⟩ := t
  match token with
  | .number value =>
    cases h
    exact reads_reduce ho hp (.number value position)
  | .name text =>
    cases h
    exact reads_reduce ho hp (.name text position)
  | .operator .sub =>
    cases h
    obtain ⟨sum, product, minuses, rfl, hs, hf, hm⟩ := hp
    refine ⟨us, sum ++ product ++ (minuses ++ [⟨.operator .sub, position⟩]), by simp, ho, ?_⟩
    exact ⟨sum, product, _, rfl, hs, hf, hm.push position⟩
  | .openParen =>
    cases h
    exact ⟨us ++ vs ++ [⟨.openParen, position⟩], [], by simp, ⟨us, vs, rfl, ho, hp⟩,
      Pending.reads_empty⟩
  | .operator .add | .operator .mul | .operator .div | .closeParen | .finish => cases h

theorem reads_stepOperator {pending : Pending} {outer : List (Nat × Pending)} {factor : Expr}
    {s : ParseState} {t : PlacedToken} {us vs : List PlacedToken} (ho : OuterReads outer us)
    (hf : pending.ReadsFactor factor vs)
    (h : stepOperator ⟨pending, outer, some factor⟩ factor t = .ok s) :
    s.Reads (us ++ vs ++ [t]) := by
  obtain ⟨token, position⟩ := t
  match token, outer, ho with
  | .operator op, outer, ho =>
    simp only [stepOperator] at h
    split at h
    · rename_i tight
      cases h
      obtain ⟨sum, rest, rfl, hs, hr⟩ := hf
      exact ⟨us, sum ++ (rest ++ [⟨.operator op, position⟩]), by simp, ho, sum,
        rest ++ [⟨.operator op, position⟩], [], by simp, hs, ⟨tight, rest, position, rfl, hr⟩, rfl⟩
    · rename_i loose
      cases h
      exact ⟨us, vs ++ [⟨.operator op, position⟩], by simp, ho,
        vs ++ [⟨.operator op, position⟩], [], [], by simp,
        ⟨by simpa using loose, vs, position, rfl, hf.total⟩, rfl, rfl⟩
  | .closeParen, (openedAt, before) :: outer, ⟨us', vs', hus, ho, hp⟩ =>
    cases h
    have he := Derives.parens openedAt position hf.total
    have := reads_reduce ho hp he
    rw [hus]
    simpa only [List.append_assoc, List.cons_append, List.nil_append] using this
  | .closeParen, [], _ => cases h
  | .number _, [], _ | .name _, [], _ | .openParen, [], _ | .finish, [], _ => cases h
  | .number _, _ :: _, _ | .name _, _ :: _, _ | .openParen, _ :: _, _ | .finish, _ :: _, _ =>
    cases h

/-- A step keeps the invariant, with one more token read. -/
theorem Reads.step {s s' : ParseState} {t : PlacedToken} {ts : List PlacedToken} (hs : s.Reads ts)
    (h : s.step t = .ok s') : s'.Reads (ts ++ [t]) := by
  obtain ⟨us, vs, rfl, ho, hp⟩ := hs
  obtain ⟨pending, outer, factor⟩ := s
  cases factor with
  | none => exact reads_stepOperand ho hp h
  | some factor => exact reads_stepOperator ho hp h

theorem Reads.foldlM {s s' : ParseState} {ts us : List PlacedToken} (hs : s.Reads ts)
    (h : us.foldlM ParseState.step s = .ok s') : s'.Reads (ts ++ us) := by
  induction us generalizing s ts with
  | nil =>
    cases h
    simpa using hs
  | cons t us ih =>
    rw [List.foldlM_cons] at h
    cases ht : s.step t with
    | error fault =>
      rw [ht] at h
      cases h
    | ok next =>
      rw [ht] at h
      have := ih (hs.step ht) h
      simpa using this

theorem Reads.finish {s : ParseState} {ts : List PlacedToken} {length : Nat} {e : Expr}
    (hs : s.Reads ts) (h : s.finish length = .ok e) : Derives .expression ts e := by
  obtain ⟨us, vs, rfl, ho, hp⟩ := hs
  obtain ⟨pending, outer, factor⟩ := s
  match factor, outer, ho, hp, h with
  | some factor, [], ho, hp, h =>
    cases h
    obtain rfl : us = [] := ho
    exact hp.total

end ParseState

/-! ### Completeness -/

/-- What the tokens of a phrase do to the parser: an operand joins the work pending before it, and a
product or a sum that nothing precedes is worked off but for its last operand. -/
def Runs (ts : List PlacedToken) (e : Expr) : Phrase → Prop
  | .primary | .unary => ∀ pending outer, ∃ minuses,
      ts.foldlM ParseState.step ⟨pending, outer, none⟩ =
        .ok ⟨{ pending with minuses }, outer, some (pending.factor e)⟩
  | .factor => ∀ sum outer, ∃ product minuses,
      ts.foldlM ParseState.step ⟨⟨sum, none, 0⟩, outer, none⟩ =
        .ok ⟨⟨sum, product, minuses⟩, outer, some e⟩
  | .expression => ∀ outer, ∃ pending factor,
      ts.foldlM ParseState.step ⟨.empty, outer, none⟩ = .ok ⟨pending, outer, some factor⟩ ∧
        pending.total factor = e

theorem foldlM_step_append {s next : ParseState} {ts us : List PlacedToken}
    (h : ts.foldlM ParseState.step s = .ok next) :
    (ts ++ us).foldlM ParseState.step s = us.foldlM ParseState.step next := by
  rw [List.foldlM_append, h]
  rfl

theorem negated_negate (count : Nat) (e : Expr) :
    negated count (.negate e) = .negate (negated count e) := by
  induction count with
  | zero => rfl
  | succ count ih => rw [negated, ih, negated]

theorem Derives.runs {phrase : Phrase} {ts : List PlacedToken} {e : Expr}
    (h : Derives phrase ts e) : Runs ts e phrase := by
  induction h with
  | number | name => exact fun pending outer => ⟨pending.minuses, rfl⟩
  | primary _ ih => exact ih
  | @parens ts e openedAt closedAt _ ih =>
    intro pending outer
    obtain ⟨inner, factor, hrun, rfl⟩ := ih ((openedAt, pending) :: outer)
    refine ⟨pending.minuses, ?_⟩
    rw [List.cons_append, List.foldlM_cons]
    exact foldlM_step_append hrun
  | @minus ts e position _ ih =>
    intro pending outer
    obtain ⟨minuses, hrun⟩ := ih { pending with minuses := pending.minuses + 1 } outer
    refine ⟨minuses, ?_⟩
    rw [Pending.factor, negated_negate]
    exact hrun
  | @unary ts e _ ih =>
    intro sum outer
    obtain ⟨minuses, hrun⟩ := ih ⟨sum, none, 0⟩ outer
    exact ⟨none, minuses, hrun⟩
  | @product ts us l r op position _ tight _ ihl ihr =>
    intro sum outer
    obtain ⟨product, minuses, hl⟩ := ihl sum outer
    obtain ⟨minuses', hr⟩ := ihr ⟨sum, some (l, op), 0⟩ outer
    refine ⟨some (l, op), minuses', ?_⟩
    have hop : ParseState.step ⟨⟨sum, product, minuses⟩, outer, some l⟩ ⟨.operator op, position⟩ =
        .ok ⟨⟨sum, some (l, op), 0⟩, outer, none⟩ := if_pos tight
    rw [foldlM_step_append hl, List.foldlM_cons, hop]
    exact hr
  | @factor ts e _ ih =>
    intro outer
    obtain ⟨product, minuses, hrun⟩ := ih none outer
    exact ⟨⟨none, product, minuses⟩, e, hrun, rfl⟩
  | @sum ts us l r op position _ loose _ ihl ihr =>
    intro outer
    obtain ⟨pending, factor, hl, rfl⟩ := ihl outer
    obtain ⟨product, minuses, hr⟩ := ihr (some (pending.total factor, op)) outer
    refine ⟨⟨some (pending.total factor, op), product, minuses⟩, r, ?_, rfl⟩
    have hop : ParseState.step ⟨pending, outer, some factor⟩ ⟨.operator op, position⟩ =
        .ok ⟨⟨some (pending.total factor, op), none, 0⟩, outer, none⟩ :=
      if_neg (Bool.eq_false_iff.mp loose)
    rw [foldlM_step_append hl, List.foldlM_cons, hop]
    exact hr

/-! ### The parser and the grammar -/

/-- Parsing a stream succeeds exactly with the expression that its tokens derive. -/
theorem TokenStream.parse_eq_ok_iff {stream : TokenStream} {e : Expr} :
    stream.parse = .ok e ↔ Derives .expression stream.tokens e := by
  constructor
  · intro h
    unfold TokenStream.parse at h
    split at h
    · cases h
    · cases hrun : stream.tokens.foldlM ParseState.step ParseState.start with
      | error fault =>
        rw [hrun] at h
        cases h
      | ok s =>
        rw [hrun] at h
        exact (ParseState.reads_start.foldlM hrun).finish h
  · intro h
    obtain ⟨pending, factor, hrun, rfl⟩ := h.runs []
    rw [TokenStream.parse, if_neg h.ne_nil]
    show stream.tokens.foldlM ParseState.step ParseState.start >>= _ = _
    rw [show ParseState.start = ⟨.empty, [], none⟩ from rfl, hrun]
    rfl

theorem Derives.unique {ts : List PlacedToken} {e e' : Expr} (h : Derives .expression ts e)
    (h' : Derives .expression ts e') : e = e' := by
  have hp : TokenStream.parse ⟨ts, 0⟩ = .ok e := TokenStream.parse_eq_ok_iff.mpr h
  have hp' : TokenStream.parse ⟨ts, 0⟩ = .ok e' := TokenStream.parse_eq_ok_iff.mpr h'
  rw [hp] at hp'
  exact Except.ok.inj hp'

theorem parse_of_tokenize {formula : String} {stream : TokenStream}
    (h : tokenize formula = .ok stream) :
    parse formula = stream.parse.mapError (.parse formula) := by
  rw [parse, parseFormula, h]
  rfl

theorem parse_of_tokenize_error {formula : String} {fault : PlacedFault}
    (h : tokenize formula = .error fault) : parse formula = .error (.parse formula fault) := by
  rw [parse, parseFormula, h]
  rfl

/-- A formula that has an expression has tokens, which derive it. -/
theorem exists_derives_of_parse {formula : String} {e : Expr} (h : parse formula = .ok e) :
    ∃ stream, tokenize formula = .ok stream ∧ Derives .expression stream.tokens e := by
  cases htok : tokenize formula with
  | error fault =>
    rw [parse_of_tokenize_error htok] at h
    cases h
  | ok stream =>
    rw [parse_of_tokenize htok] at h
    cases hparse : stream.parse with
    | error fault =>
      rw [hparse] at h
      cases h
    | ok e' =>
      rw [hparse] at h
      cases h
      exact ⟨stream, rfl, TokenStream.parse_eq_ok_iff.mp hparse⟩

/-- Every error of the parser is about the text of the formula. -/
theorem parse_eq_error {formula : String} {error : FormulaError}
    (h : parse formula = .error error) : ∃ fault, error = .parse formula fault := by
  rw [parse] at h
  cases hp : parseFormula formula with
  | ok e =>
    rw [hp] at h
    cases h
  | error fault =>
    rw [hp] at h
    exact ⟨fault, (Except.error.inj h).symm⟩

/-- A formula whose tokens are known has the one expression that they derive, if they derive one,
and no other; and every text ends in an expression or in a fault of that text. -/
theorem parse_eq_ok_iff_derives (formula : String) :
    (∀ stream, tokenize formula = .ok stream →
      (∀ e, parse formula = .ok e ↔ Derives .expression stream.tokens e) ∧
      ∀ e e', Derives .expression stream.tokens e → Derives .expression stream.tokens e' →
        e = e') ∧
    ((∃ e, parse formula = .ok e) ∨ ∃ fault, parse formula = .error (.parse formula fault)) := by
  refine ⟨fun stream h => ⟨fun e => ?_, fun e e' => Derives.unique⟩, ?_⟩
  · rw [parse_of_tokenize h, ← TokenStream.parse_eq_ok_iff]
    cases stream.parse with
    | ok value => simp [Except.mapError]
    | error fault => simp [Except.mapError]
  · cases h : parse formula with
    | ok e => exact .inl ⟨e, rfl⟩
    | error error =>
      obtain ⟨fault, rfl⟩ := parse_eq_error h
      exact .inr ⟨fault, rfl⟩

/-- The minus before a parenthesis is part of the dividend. -/
theorem parse_negated_quotient :
    tokenize "-(a - b) / c" = .ok ⟨[⟨.operator .sub, 0⟩, ⟨.openParen, 1⟩, ⟨.name "a", 2⟩,
      ⟨.operator .sub, 4⟩, ⟨.name "b", 6⟩, ⟨.closeParen, 7⟩, ⟨.operator .div, 9⟩,
      ⟨.name "c", 11⟩], 12⟩ ∧
    parse "-(a - b) / c" =
      .ok (.binary .div (.negate (.binary .sub (.var "a" 2) (.var "b" 6))) (.var "c" 11)) := by
  have h : tokenize "-(a - b) / c" = .ok ⟨[⟨.operator .sub, 0⟩, ⟨.openParen, 1⟩, ⟨.name "a", 2⟩,
      ⟨.operator .sub, 4⟩, ⟨.name "b", 6⟩, ⟨.closeParen, 7⟩, ⟨.operator .div, 9⟩,
      ⟨.name "c", 11⟩], 12⟩ := by cbv
  refine ⟨h, (((parse_eq_ok_iff_derives _).1 _ h).1 _).mpr (.factor ?_)⟩
  have hsum := @Derives.sum _ _ _ _ .sub 4 (.factor (.unary (.primary (.name "a" 2)))) rfl
    (.unary (.primary (.name "b" 6)))
  have hminus := Derives.minus 0 (.primary (.parens 1 7 hsum))
  exact @Derives.product _ _ _ _ .div 9 (.unary hminus) rfl (.primary (.name "c" 11))

end QuestFormula
