import QuestFormula.Proofs.Formula.Lexeme

/-! Where a formula goes wrong.  Tokens are viable if they begin a formula of the grammar with its
end after it.  The parser never goes on past tokens that are not: whatever it has read can be
completed, by an operand if one is due and by closing the open parentheses, and where it stops no
formula goes on as the text does, since it would read that formula.  So a fault of the grammar
stands at the first token that is wrong, the end included.  A parenthesis is reported as unclosed
only at the end, and it is the innermost one: what follows it is balanced. -/

namespace QuestFormula

/-- The tokens begin a formula of the grammar, followed by its end. -/
def Viable (ts : List PlacedToken) : Prop :=
  ∃ us e position, Derives .expression us e ∧ ts <+: us ++ [⟨.finish, position⟩]

/-- The token at a place is the first wrong one: those before it begin a formula, and with it they
begin none. -/
def FirstWrong (ts : List PlacedToken) (place : Nat) : Prop :=
  Viable (ts.take place) ∧ ¬Viable (ts.take (place + 1))

/-- Every parenthesis in the tokens has its partner in them. -/
inductive Balanced : List PlacedToken → Prop
  | nil : Balanced []
  | other {token : Token} (position : Nat) (not_open : token ≠ .openParen)
      (not_close : token ≠ .closeParen) : Balanced [⟨token, position⟩]
  | parens {ts : List PlacedToken} (openedAt closedAt : Nat) (inner : Balanced ts) :
      Balanced (⟨.openParen, openedAt⟩ :: ts ++ [⟨.closeParen, closedAt⟩])
  | append {ts us : List PlacedToken} (left : Balanced ts) (right : Balanced us) :
      Balanced (ts ++ us)

/-- The innermost parenthesis that the tokens leave open is at the position. -/
def LeavesOpen (ts : List PlacedToken) (position : Nat) : Prop :=
  ∃ before after, ts = before ++ ⟨.openParen, position⟩ :: after ∧ Balanced after

/-! ### Balance -/

theorem Balanced.operator (op : Operator) (position : Nat) : Balanced [⟨.operator op, position⟩] :=
  .other position nofun nofun

theorem Derives.balanced {phrase : Phrase} {ts : List PlacedToken} {e : Expr}
    (h : Derives phrase ts e) : Balanced ts := by
  induction h with
  | number | name => exact .other _ nofun nofun
  | parens openedAt closedAt _ ih => exact .parens openedAt closedAt ih
  | primary _ ih | unary _ ih | factor _ ih => exact ih
  | minus position _ ih => exact .append (.operator .sub position) ih
  | product position _ _ _ ihl ihr | sum position _ _ _ ihl ihr =>
    exact .append ihl (.append (.operator _ position) ihr)

theorem LeftOperand.balanced {phrase : Phrase} {tight : Bool} {left : Option (Expr × Operator)}
    {ts : List PlacedToken} (h : LeftOperand phrase tight left ts) : Balanced ts := by
  match left, h with
  | none, h =>
    obtain rfl : ts = [] := h
    exact .nil
  | some (_, op), ⟨_, us, position, hts, hd⟩ =>
    rw [hts]
    exact .append hd.balanced (.operator op position)

theorem Pending.ReadsFactor.balanced {p : Pending} {factor : Expr} {ts : List PlacedToken}
    (h : p.ReadsFactor factor ts) : Balanced ts := by
  obtain ⟨sum, rest, rfl, hsum, hrest⟩ := h
  exact .append hsum.balanced hrest.balanced

/-- The parenthesis that the parser holds innermost is the one that the tokens leave open. -/
theorem ParseState.Reads.leavesOpen {s : ParseState} {ts : List PlacedToken} (h : s.Reads ts)
    {factor : Expr} (hfactor : s.factor = some factor) {openedAt : Nat} {pending : Pending}
    {outer : List (Nat × Pending)} (houter : s.outer = (openedAt, pending) :: outer) :
    LeavesOpen ts openedAt := by
  obtain ⟨us, vs, rfl, ho, hp⟩ := h
  rw [houter] at ho
  rw [hfactor] at hp
  obtain ⟨us', vs', rfl, -, -⟩ := ho
  exact ⟨us' ++ vs', vs, by simp, hp.balanced⟩

/-! ### What the parser has read can be completed -/

namespace ParseState

theorem exists_closing (s : ParseState) {factor : Expr} (h : s.factor = some factor) :
    ∃ (more : List PlacedToken) (next : ParseState) (e : Expr),
      more.foldlM step s = .ok next ∧ ∀ length, next.finish length = .ok e := by
  obtain ⟨pending, outer, _⟩ := s
  subst h
  -- closing the innermost parenthesis leaves one open parenthesis less, and an operator due again
  induction outer generalizing pending factor with
  | nil => exact ⟨[], _, pending.total factor, rfl, fun _ => rfl⟩
  | cons open_ outer ih =>
    obtain ⟨openedAt, before⟩ := open_
    obtain ⟨more, next, e, hmore, hnext⟩ := @ih (before.factor (pending.total factor)) before
    exact ⟨⟨.closeParen, 0⟩ :: more, next, e, hmore, hnext⟩

theorem exists_completion (s : ParseState) :
    ∃ (more : List PlacedToken) (next : ParseState) (e : Expr),
      more.foldlM step s = .ok next ∧ ∀ length, next.finish length = .ok e := by
  obtain ⟨pending, outer, factor⟩ := s
  cases factor with
  | some factor => exact exists_closing _ rfl
  | none =>
    -- an operand is due first
    obtain ⟨more, next, e, hmore, hnext⟩ :=
      exists_closing (reduce pending outer (.var "x" 0)) rfl
    exact ⟨⟨.name "x", 0⟩ :: more, next, e, hmore, hnext⟩

end ParseState

theorem viable_of_foldlM {ts : List PlacedToken} {s : ParseState}
    (h : ts.foldlM ParseState.step ParseState.start = .ok s) : Viable ts := by
  obtain ⟨more, next, e, hmore, hnext⟩ := s.exists_completion
  -- read to its end, the completion is a formula by the soundness of the parser
  have hreads := (ParseState.reads_start.foldlM h).foldlM hmore
  exact ⟨ts ++ more, e, 0, hreads.finish (hnext 0), by simp⟩

/-! ### Where the parser stops, no formula goes on -/

theorem foldlM_step_error {s next : ParseState} {t : PlacedToken} {fault : PlacedFault}
    {ts us : List PlacedToken} (h : ts.foldlM ParseState.step s = .ok next)
    (ht : next.step t = .error fault) :
    (ts ++ t :: us).foldlM ParseState.step s = .error fault := by
  rw [foldlM_step_append h, List.foldlM_cons, ht]
  rfl

theorem exists_of_foldlM_error {ts : List PlacedToken} {s : ParseState} {fault : PlacedFault}
    (h : ts.foldlM ParseState.step s = .error fault) :
    ∃ before t after next, ts = before ++ t :: after ∧
      before.foldlM ParseState.step s = .ok next ∧ next.step t = .error fault := by
  induction ts generalizing s with
  | nil => cases h
  | cons t ts ih =>
    rw [List.foldlM_cons] at h
    cases ht : s.step t with
    | error fault' =>
      rw [ht] at h
      cases h
      exact ⟨[], t, ts, s, rfl, rfl, ht⟩
    | ok s' =>
      rw [ht] at h
      obtain ⟨before, t', after, next, rfl, hbefore, ht'⟩ := ih h
      refine ⟨t :: before, t', after, next, rfl, ?_, ht'⟩
      rw [List.foldlM_cons, ht]
      exact hbefore

/-- A formula of the grammar does not begin with what the parser refuses. -/
theorem not_prefix_of_step_error {ts us : List PlacedToken} {s : ParseState} {t : PlacedToken}
    {fault : PlacedFault} {e : Expr} (h : ts.foldlM ParseState.step ParseState.start = .ok s)
    (ht : s.step t = .error fault) (hd : Derives .expression us e) : ¬ts ++ [t] <+: us := by
  rintro ⟨more, rfl⟩
  -- the parser would read the formula to its end
  obtain ⟨pending, factor, hrun, -⟩ := hd.runs []
  rw [List.append_assoc] at hrun
  cases (foldlM_step_error h ht).symm.trans hrun

theorem not_viable_of_step_error {ts : List PlacedToken} {s : ParseState} {t : PlacedToken}
    {fault : PlacedFault} (h : ts.foldlM ParseState.step ParseState.start = .ok s)
    (ht : s.step t = .error fault) (hfinish : t.token ≠ .finish) : ¬Viable (ts ++ [t]) := by
  rintro ⟨us, e, position, hd, hprefix⟩
  rcases List.prefix_concat_iff.mp hprefix with heq | hprefix
  · obtain ⟨-, heq⟩ := List.append_inj' heq rfl
    obtain rfl := List.singleton_inj.mp heq
    exact hfinish rfl
  · exact not_prefix_of_step_error h ht hd hprefix

namespace ParseState

theorem exists_step_finish (s : ParseState) (position : Nat) :
    ∃ fault, s.step ⟨.finish, position⟩ = .error fault := by
  obtain ⟨pending, outer, factor⟩ := s
  cases factor with
  | none => exact ⟨_, rfl⟩
  | some factor =>
    cases outer with
    | nil => exact ⟨_, rfl⟩
    | cons => exact ⟨_, rfl⟩

/-- A token that is refused is where the fault is, and what it repeats. -/
theorem step_error_cases {s : ParseState} {t : PlacedToken} {fault : PlacedFault}
    (h : s.step t = .error fault) : fault.position = t.position ∧
      (fault.fault = .missingOperand t.token ∨ fault.fault = .unopenedParen ∨
        fault.fault = .trailing t.token ∨
        ∃ openedAt, fault.fault = .missingClose openedAt t.token) := by
  obtain ⟨pending, outer, factor⟩ := s
  obtain ⟨token, position⟩ := t
  cases factor with
  | none =>
    cases token with
    | number | name | openParen => cases h
    | closeParen | finish =>
      cases h
      exact ⟨rfl, .inl rfl⟩
    | operator op =>
      cases op with
      | sub => cases h
      | add | mul | div =>
        cases h
        exact ⟨rfl, .inl rfl⟩
  | some factor =>
    cases token with
    | operator op =>
      simp only [step, stepOperator] at h
      split at h <;> cases h
    | closeParen =>
      cases outer with
      | nil =>
        cases h
        exact ⟨rfl, .inr (.inl rfl)⟩
      | cons => cases h
    | number | name | openParen | finish =>
      cases outer with
      | nil =>
        cases h
        exact ⟨rfl, .inr (.inr (.inl rfl))⟩
      | cons =>
        cases h
        exact ⟨rfl, .inr (.inr (.inr ⟨_, rfl⟩))⟩

theorem step_eq_error {s : ParseState} {t : PlacedToken} {fault : PlacedFault}
    (h : s.step t = .error fault) :
    fault.position = t.position ∧ ∀ openedAt, fault.fault ≠ .unclosedParen openedAt := by
  obtain ⟨hposition, hfault⟩ := step_error_cases h
  refine ⟨hposition, fun openedAt heq => ?_⟩
  rw [heq] at hfault
  simp at hfault

theorem finish_eq_error {s : ParseState} {length : Nat} {fault : PlacedFault}
    (h : s.finish length = .error fault) :
    fault.position = length ∧ ∀ openedAt, fault.fault = .unclosedParen openedAt →
      ∃ factor pending outer, s.factor = some factor ∧ s.outer = (openedAt, pending) :: outer := by
  obtain ⟨pending, outer, factor⟩ := s
  match factor, outer, h with
  | none, _, h =>
    cases h
    exact ⟨rfl, nofun⟩
  | some factor, (openedAt, before) :: outer, h =>
    cases h
    refine ⟨rfl, ?_⟩
    rintro _ ⟨⟩
    exact ⟨factor, before, outer, rfl, rfl⟩

end ParseState

/-! ### Faults of the grammar -/

/-- The parser stops at the first wrong token, and leaves a parenthesis unclosed only at the end. -/
theorem TokenStream.parse_eq_error {stream : TokenStream} {fault : PlacedFault}
    (hfinish : ∀ t ∈ stream.tokens, t.token ≠ .finish) (hne : stream.tokens ≠ [])
    (h : stream.parse = .error fault) :
    ∃ place t, stream.toList[place]? = some t ∧ fault.position = t.position ∧
      FirstWrong stream.toList place ∧
      ∀ openedAt, fault.fault = .unclosedParen openedAt →
        t = ⟨.finish, stream.length⟩ ∧ LeavesOpen stream.tokens openedAt := by
  have hparse := h
  rw [TokenStream.parse, if_neg hne] at h
  cases hrun : stream.tokens.foldlM ParseState.step ParseState.start with
  | error fault' =>
    -- a token is refused: those before it were read, and with it nothing can be
    rw [hrun] at h
    cases h
    obtain ⟨before, t, after, s, htokens, hbefore, ht⟩ := exists_of_foldlM_error hrun
    have hlist : stream.toList = before ++ t :: (after ++ [⟨.finish, stream.length⟩]) := by
      rw [toList, htokens]
      simp
    obtain ⟨hposition, hunclosed⟩ := ParseState.step_eq_error ht
    refine ⟨before.length, t, by simp [hlist], hposition, ⟨?_, ?_⟩,
      fun openedAt heq => absurd heq (hunclosed openedAt)⟩
    · rw [hlist, List.take_left]
      exact viable_of_foldlM hbefore
    · have htake : stream.toList.take (before.length + 1) = before ++ [t] := by
        rw [hlist, List.take_append, List.take_of_length_le (Nat.le_succ _),
          Nat.add_sub_cancel_left]
        rfl
      rw [htake]
      exact not_viable_of_step_error hbefore ht (hfinish t (by simp [htokens]))
  | ok s =>
    -- the end is refused: all tokens were read, and they are no formula yet
    rw [hrun] at h
    obtain ⟨hposition, hunclosed⟩ := ParseState.finish_eq_error (h : s.finish stream.length = _)
    refine ⟨stream.tokens.length, ⟨.finish, stream.length⟩, by simp [toList], hposition, ⟨?_, ?_⟩,
      fun openedAt heq => ⟨rfl, ?_⟩⟩
    · rw [toList, List.take_left]
      exact viable_of_foldlM hrun
    · rw [toList, List.take_of_length_le (by simp)]
      rintro ⟨us, e, position, hd, hprefix⟩
      rcases List.prefix_concat_iff.mp hprefix with heq | hprefix
      · obtain ⟨rfl, -⟩ := List.append_inj' heq rfl
        cases hparse.symm.trans (TokenStream.parse_eq_ok_iff.mpr hd)
      · obtain ⟨_, ht⟩ := s.exists_step_finish stream.length
        exact not_prefix_of_step_error hrun ht hd hprefix
    · obtain ⟨factor, pending, outer, hfactor, houter⟩ := hunclosed openedAt heq
      exact (ParseState.reads_start.foldlM hrun).leavesOpen hfactor houter

/-- Only one fault has the message that a parenthesis is unbalanced. -/
theorem Fault.eq_unclosedParen_of_message {f : Fault} {openedAt : Nat}
    (h : f.message = s!"Unbalanced '(' opened at position {openedAt}") :
    f = .unclosedParen openedAt := by
  -- the other messages begin with other words
  have hlist (text : String) (htext : f.message = text) :
      text.toList = ("Unbalanced '(' opened at position " ++ toString openedAt).toList :=
    congrArg String.toList (htext.symm.trans h)
  cases f with
  | unclosedParen openedAt' =>
    rw [Nat.repr_inj.mp (String.append_right_inj _ |>.mp h)]
  | unexpectedCharacter c =>
    have := hlist ("Unexpected character '" ++ toString c ++ "'") rfl
    simp at this
  | malformedNumber text =>
    have := hlist ("Malformed numeric literal '" ++ text ++ "'") rfl
    simp at this
  | emptyFormula =>
    have := hlist "Empty formula" rfl
    simp at this
  | missingOperand found =>
    have := hlist ("Expected expression, found " ++ found.describe) rfl
    simp at this
  | missingClose openedAt' found =>
    have := hlist ("Expected ')' to close '(' at position " ++ toString openedAt' ++ ", found " ++
      found.describe) rfl
    simp at this
  | unopenedParen =>
    have := hlist "Unbalanced ')'" rfl
    simp at this
  | trailing found =>
    have := hlist ("Unexpected " ++ found.describe ++ " after expression") rfl
    simp at this

/-! ### Faults of a formula -/

/-- A fault is in a token, or there are no tokens, or it is a fault of the grammar. -/
theorem parse_eq_error_cases {formula : String} {error : FormulaError}
    (h : parse formula = .error error) : ∃ fault, error = .parse formula fault ∧
      (tokenize formula = .error fault ∨ ∃ stream, tokenize formula = .ok stream ∧
        stream.parse = .error fault) := by
  cases htok : tokenize formula with
  | error fault =>
    exact ⟨fault, Except.error.inj (h.symm.trans (parse_of_tokenize_error htok)), .inl rfl⟩
  | ok stream =>
    rw [parse_of_tokenize htok] at h
    cases hparse : stream.parse with
    | error fault =>
      rw [hparse] at h
      exact ⟨fault, (Except.error.inj h).symm, .inr ⟨stream, rfl, hparse⟩⟩
    | ok e =>
      rw [hparse] at h
      cases h

theorem fault_of_tokenize_error {formula : String} {fault : PlacedFault}
    (h : tokenize formula = .error fault) :
    fault.position ≤ formula.length ∧ ∀ openedAt, fault.fault ≠ .unclosedParen openedAt := by
  obtain ⟨_, _, -, hposition, hfault⟩ := tokenize_eq_error_iff.mp h
  refine ⟨Nat.le.intro hposition, fun openedAt heq => ?_⟩
  rw [heq] at hfault
  cases hfault

theorem fault_of_parse_error {formula : String} {stream : TokenStream} {fault : PlacedFault}
    (htok : tokenize formula = .ok stream) (hne : stream.tokens ≠ [])
    (h : stream.parse = .error fault) :
    ∃ place t, stream.toList[place]? = some t ∧ fault.position = t.position ∧
      t.position ≤ formula.length ∧ FirstWrong stream.toList place ∧
      ∀ openedAt, fault.fault = .unclosedParen openedAt →
        t = ⟨.finish, formula.length⟩ ∧ LeavesOpen stream.tokens openedAt := by
  obtain ⟨hlength, hmem⟩ := mem_of_tokenize htok
  obtain ⟨place, t, ht, hposition, hfirst, hunclosed⟩ :=
    TokenStream.parse_eq_error (fun t ht => (hmem t ht).1) hne h
  rw [hlength] at hunclosed
  refine ⟨place, t, ht, hposition, ?_, hfirst, hunclosed⟩
  rcases List.mem_append.mp (List.mem_of_getElem? ht) with ht | ht
  · exact (hmem t ht).2.le
  · rw [List.mem_singleton.mp ht]
    exact hlength.le

/-- With tokens there, an error of the grammar is at the first wrong one.  Without any, it is at the
beginning; and a fault in a token comes before every fault of the grammar.  An unbalanced opening
parenthesis is reported only at the end, and it is the innermost one that is open there.  The error
has the formula, and its position is in it or at its end. -/
theorem parse_error_at_first_wrong (formula : String) :
    (∀ stream, tokenize formula = .ok stream → stream.tokens ≠ [] →
      ∀ error, parse formula = .error error → ∃ fault place t, error = .parse formula fault ∧
        stream.toList[place]? = some t ∧ fault.position = t.position ∧
        FirstWrong stream.toList place) ∧
    ((∀ c ∈ formula.toList, isBlank c) →
      parse formula = .error (.parse formula ⟨0, .emptyFormula⟩)) ∧
    (∀ fault, tokenize formula = .error fault → parse formula = .error (.parse formula fault)) ∧
    (∀ fault openedAt, parse formula = .error (.parse formula fault) →
      fault.fault.message = s!"Unbalanced '(' opened at position {openedAt}" →
      ∃ stream place, tokenize formula = .ok stream ∧
        stream.toList[place]? = some ⟨.finish, formula.length⟩ ∧
        fault.position = formula.length ∧ FirstWrong stream.toList place ∧
        LeavesOpen stream.tokens openedAt) ∧
    ∀ error, parse formula = .error error →
      ∃ fault, error = .parse formula fault ∧ fault.position ≤ formula.length := by
  refine ⟨fun stream htok hne error h => ?_, fun hblank => ?_, fun fault => parse_of_tokenize_error,
    fun fault openedAt h hmessage => ?_, fun error h => ?_⟩
  · obtain ⟨fault, rfl, herror | ⟨_, hok, hparse⟩⟩ := parse_eq_error_cases h
    · cases htok.symm.trans herror
    · obtain rfl := Except.ok.inj (htok.symm.trans hok)
      obtain ⟨place, t, ht, hposition, -, hfirst, -⟩ := fault_of_parse_error htok hne hparse
      exact ⟨fault, place, t, rfl, ht, hposition, hfirst⟩
  · rw [parse_of_tokenize (tokenize_blank hblank)]
    rfl
  · have hunclosed := Fault.eq_unclosedParen_of_message hmessage
    obtain ⟨_, ⟨⟩, herror | ⟨stream, htok, hparse⟩⟩ := parse_eq_error_cases h
    · exact absurd hunclosed ((fault_of_tokenize_error herror).2 openedAt)
    · have hne : stream.tokens ≠ [] := by
        intro heq
        rw [TokenStream.parse, if_pos heq] at hparse
        cases hparse
        cases hunclosed
      obtain ⟨place, t, ht, hposition, -, hfirst, hopen⟩ := fault_of_parse_error htok hne hparse
      obtain ⟨rfl, hleaves⟩ := hopen openedAt hunclosed
      exact ⟨stream, place, htok, ht, hposition, hfirst, hleaves⟩
  · obtain ⟨fault, rfl, herror | ⟨stream, htok, hparse⟩⟩ := parse_eq_error_cases h
    · exact ⟨fault, rfl, (fault_of_tokenize_error herror).1⟩
    · refine ⟨fault, rfl, ?_⟩
      by_cases hne : stream.tokens = []
      · rw [TokenStream.parse, if_pos hne] at hparse
        cases hparse
        exact Nat.zero_le _
      · obtain ⟨_, _, _, hposition, hle, -⟩ := fault_of_parse_error htok hne hparse
        exact hposition.trans_le hle

/-- Of two open parentheses the outer one has its partner missing, and a malformed number comes
before a closing parenthesis that has no partner. -/
theorem parse_error_at_first_wrong_paren :
    (∃ stream place, tokenize "(a + (b)" = .ok stream ∧
      stream.toList[place]? = some ⟨.finish, 8⟩ ∧ FirstWrong stream.toList place ∧
      LeavesOpen stream.tokens 0) ∧
    (∃ stream place t, tokenize "a) b" = .ok stream ∧ FirstWrong stream.toList place ∧
      stream.toList[place]? = some t ∧ t.position = 1) ∧
    parse "a) 1.2.3" = .error (.parse "a) 1.2.3" ⟨3, .malformedNumber "1.2.3"⟩) ∧
    parse " \u3000" = .error (.parse " \u3000" ⟨0, .emptyFormula⟩) := by
  have hopen : parse "(a + (b)" = .error (.parse "(a + (b)" ⟨8, .unclosedParen 0⟩) := by cbv
  have hclose : parse "a) b" = .error (.parse "a) b" ⟨1, .unopenedParen⟩) := by cbv
  have htok : tokenize "a) b" =
      .ok ⟨[⟨.name "a", 0⟩, ⟨.closeParen, 1⟩, ⟨.name "b", 3⟩], 4⟩ := by cbv
  refine ⟨?_, ?_, ?_, ?_⟩
  · obtain ⟨stream, place, htok, ht, -, hfirst, hleaves⟩ :=
      (parse_error_at_first_wrong _).2.2.2.1 _ 0 hopen rfl
    exact ⟨stream, place, htok, ht, hfirst, hleaves⟩
  · obtain ⟨_, place, t, ⟨⟩, ht, hposition, hfirst⟩ :=
      (parse_error_at_first_wrong _).1 _ htok (List.cons_ne_nil _ _) _ hclose
    exact ⟨_, place, t, htok, hfirst, ht, hposition.symm⟩
  · exact (parse_error_at_first_wrong _).2.2.1 _ (by cbv)
  · exact (parse_error_at_first_wrong _).2.1 (by simp [isBlank])

end QuestFormula
