import QuestFormula.Proofs.Formula.Display
import QuestFormula.Proofs.Formula.Lexeme

/-! Blanks between the lexemes of a formula.  A text is `Spaced` from pieces if it is the pieces in
order with blanks, or nothing, around them.  Taking blanks away can glue two lexemes into one, but
only where both are words, numbers or names; and the grammar never has two words side by side:
`Derives.isChain`.  So every text spaced from the lexemes of an accepted formula is lexed into the
same tokens at other positions, and these derive the same expression but for the positions of its
variables. -/

namespace QuestFormula

/-- The token is a number or a name. -/
def Token.isWord : Token → Bool
  | number _ | name _ => true
  | _ => false

/-- The tokens are not both words. -/
def Apart (a b : Token) : Prop := ¬(a.isWord ∧ b.isWord)

/-- The text is the pieces in order, with blanks or nothing before, between and after them. -/
inductive Spaced : List (List Char) → List Char → Prop
  | nil : Spaced [] []
  | blank {c : Char} {pieces : List (List Char)} {text : List Char} (h : isBlank c)
      (tail : Spaced pieces text) : Spaced pieces (c :: text)
  | piece {pieces : List (List Char)} {text : List Char} (piece : List Char)
      (tail : Spaced pieces text) : Spaced (piece :: pieces) (piece ++ text)

/-- The text without its blanks. -/
def withoutBlanks (text : String) : String :=
  String.ofList (text.toList.filter fun c => !isBlank c)

/-! ### The grammar keeps words apart -/

theorem apart_of_not_isWord_left {a b : Token} (h : a.isWord = false) : Apart a b :=
  fun hab => Bool.eq_false_iff.mp h hab.1

theorem apart_of_not_isWord_right {a b : Token} (h : b.isWord = false) : Apart a b :=
  fun hab => Bool.eq_false_iff.mp h hab.2

/-- A token that is no word can stand between any others. -/
theorem isChain_append_cons {ts us : List PlacedToken} {t : PlacedToken}
    (ht : t.token.isWord = false) (hts : ts.IsChain fun a b => Apart a.token b.token)
    (hus : us.IsChain fun a b => Apart a.token b.token) :
    (ts ++ t :: us).IsChain fun a b => Apart a.token b.token := by
  refine hts.append (List.isChain_cons.mpr ⟨fun u _ => apart_of_not_isWord_left ht, hus⟩) ?_
  rintro a - _ ⟨⟩
  exact apart_of_not_isWord_right ht

/-- No two words stand side by side in a phrase. -/
theorem Derives.isChain {phrase : Phrase} {ts : List PlacedToken} {e : Expr}
    (h : Derives phrase ts e) : ts.IsChain fun a b => Apart a.token b.token := by
  induction h with
  | number | name => exact .singleton _
  | parens openedAt closedAt _ ih =>
    have hclosed := isChain_append_cons (t := ⟨.closeParen, closedAt⟩) rfl ih .nil
    exact isChain_append_cons (t := ⟨.openParen, openedAt⟩) rfl .nil hclosed
  | primary _ ih | unary _ ih | factor _ ih => exact ih
  | minus position _ ih =>
    exact isChain_append_cons (t := ⟨.operator .sub, position⟩) rfl .nil ih
  | product _ _ _ _ ihl ihr | sum _ _ _ _ ihl ihr => exact isChain_append_cons rfl ihl ihr

/-! ### Positions do not matter to the grammar -/

theorem exists_of_map_token_eq {us ts vs : List PlacedToken} {t : PlacedToken}
    (h : us.map PlacedToken.token = (ts ++ t :: vs).map PlacedToken.token) :
    ∃ left position right, us = left ++ ⟨t.token, position⟩ :: right ∧
      left.map PlacedToken.token = ts.map PlacedToken.token ∧
      right.map PlacedToken.token = vs.map PlacedToken.token := by
  rw [List.map_append, List.map_cons] at h
  obtain ⟨left, tail, rfl, hleft, htail⟩ := List.map_eq_append_iff.mp h
  obtain ⟨⟨_, position⟩, right, rfl, rfl, hright⟩ := List.map_eq_cons_iff.mp htail
  exact ⟨left, position, right, rfl, hleft, hright⟩

/-- The same tokens at other positions derive the same expression but for its positions. -/
theorem Derives.exists_agrees {phrase : Phrase} {ts us : List PlacedToken} {e : Expr}
    (h : Derives phrase ts e)
    (hus : us.map PlacedToken.token = ts.map PlacedToken.token) :
    ∃ e', Derives phrase us e' ∧ e'.Agrees Eq e := by
  induction h generalizing us with
  | number value =>
    obtain ⟨⟨_, position⟩, rfl, rfl⟩ := List.map_eq_singleton_iff.mp hus
    exact ⟨_, .number value position, .literal rfl⟩
  | name text =>
    obtain ⟨⟨_, position⟩, rfl, rfl⟩ := List.map_eq_singleton_iff.mp hus
    exact ⟨_, .name text position, .var text _ _⟩
  | parens _ _ _ ih =>
    obtain ⟨opened, closedAt, rest, rfl, hopened, hrest⟩ := exists_of_map_token_eq hus
    obtain ⟨⟨_, openedAt⟩, inner, rfl, rfl, hinner⟩ := List.map_eq_cons_iff.mp hopened
    obtain rfl := List.map_eq_nil_iff.mp hrest
    obtain ⟨e', he', hagrees⟩ := ih hinner
    exact ⟨e', .parens openedAt closedAt he', hagrees⟩
  | minus _ _ ih =>
    obtain ⟨⟨_, position⟩, operand, rfl, rfl, hoperand⟩ := List.map_eq_cons_iff.mp hus
    obtain ⟨e', he', hagrees⟩ := ih hoperand
    exact ⟨_, .minus position he', .negate hagrees⟩
  | product _ _ tight _ ihl ihr =>
    obtain ⟨left, position, right, rfl, hleft, hright⟩ := exists_of_map_token_eq hus
    obtain ⟨l, hl, hlagrees⟩ := ihl hleft
    obtain ⟨r, hr, hragrees⟩ := ihr hright
    exact ⟨_, .product position hl tight hr, .binary _ hlagrees hragrees⟩
  | sum _ _ loose _ ihl ihr =>
    obtain ⟨left, position, right, rfl, hleft, hright⟩ := exists_of_map_token_eq hus
    obtain ⟨l, hl, hlagrees⟩ := ihl hleft
    obtain ⟨r, hr, hragrees⟩ := ihr hright
    exact ⟨_, .sum position hl loose hr, .binary _ hlagrees hragrees⟩
  | primary _ ih =>
    obtain ⟨e', he', hagrees⟩ := ih hus
    exact ⟨e', .primary he', hagrees⟩
  | unary _ ih =>
    obtain ⟨e', he', hagrees⟩ := ih hus
    exact ⟨e', .unary he', hagrees⟩
  | factor _ ih =>
    obtain ⟨e', he', hagrees⟩ := ih hus
    exact ⟨e', .factor he', hagrees⟩

/-! ### Lexing spaced texts -/

/-- A lexeme is taken whole before a text that does not go on with it; only a word can go on. -/
theorem Denotes.take_eq {piece rest : List Char} {token : Token} (h : Denotes piece token)
    (hrest : token.isWord → Separate rest) (position : Nat) :
    Cursor.take ⟨piece ++ rest, position⟩ = (.ok token, ⟨rest, position + piece.length⟩) := by
  cases h with
  | operator op => exact Cursor.take_symbol (symbolToken?_symbol op) rest position
  | openParen | closeParen => exact Cursor.take_symbol rfl rest position
  | name h => exact Cursor.take_name h (hrest rfl).isNameChar_eq_false position
  | number h => exact Cursor.take_number h (hrest rfl) position

theorem Denotes.not_literal_of_not_isWord {piece : List Char} {token : Token}
    (h : Denotes piece token) (hword : token.isWord = false) :
    ∃ c, piece = [c] ∧ isLiteralChar c = false := by
  cases h with
  | operator op => exact ⟨_, rfl, by cases op <;> rfl⟩
  | openParen | closeParen => exact ⟨_, rfl, rfl⟩
  | name | number => cases hword

/-- A text spaced from lexemes does not go on with a word unless the first of them is one. -/
theorem Spaced.separate {pieces : List (List Char)} {tokens : List Token} {text : List Char}
    (h : Spaced pieces text) (hdenotes : List.Forall₂ Denotes pieces tokens)
    (hfirst : ∀ token ∈ tokens.head?, token.isWord = false) : Separate text := by
  cases h with
  | nil => exact separate_nil
  | @blank c _ _ hc _ =>
    refine separate_cons (Bool.eq_false_iff.mpr fun hliteral => ?_)
    simp [isBlank_of_isLiteralChar hliteral] at hc
  | piece =>
    cases hdenotes with
    | cons hpiece =>
      obtain ⟨c, rfl, hc⟩ := hpiece.not_literal_of_not_isWord (hfirst _ rfl)
      exact separate_cons hc

/-- A text spaced from lexemes that are kept apart is lexed into their tokens. -/
theorem Spaced.exists_tokens {pieces : List (List Char)} {tokens : List Token} {text : List Char}
    (h : Spaced pieces text) (hdenotes : List.Forall₂ Denotes pieces tokens)
    (hapart : tokens.IsChain Apart) (position : Nat) :
    ∃ ts length, Cursor.tokens ⟨text, position⟩ = .ok ⟨ts, length⟩ ∧
      ts.map PlacedToken.token = tokens := by
  induction h generalizing tokens position with
  | nil =>
    cases hdenotes
    exact ⟨[], position, Cursor.tokens_nil position, rfl⟩
  | blank hc _ ih =>
    rw [Cursor.tokens_blank hc]
    exact ih hdenotes hapart (position + 1)
  | @piece pieces text piece htail ih =>
    cases hdenotes with
    | @cons _ token _ tokens hpiece hdenotes =>
      obtain ⟨hnext, hapart⟩ := List.isChain_cons.mp hapart
      obtain ⟨ts, length, hts, rfl⟩ := ih hdenotes hapart (position + piece.length)
      have hrest : token.isWord → Separate text := fun hword =>
        htail.separate hdenotes fun next hmem =>
          Bool.eq_false_iff.mpr fun hnextWord => hnext next hmem ⟨hword, hnextWord⟩
      have hblank : ∀ c ∈ (piece ++ text).head?, isBlank c = false := by
        obtain ⟨first, tail, rfl, hfirst⟩ := hpiece.exists_first
        rintro _ ⟨⟩
        exact hfirst
      exact ⟨_, length, Cursor.tokens_of_take hblank (hpiece.take_eq hrest position)
        hpiece.ne_finish hts, rfl⟩

/-- A text spaced from the lexemes of an accepted formula is accepted, with the same expression. -/
theorem Spaced.exists_parse {formula text : String} {ls : List Lexeme} {e : Expr}
    (hparse : parse formula = .ok e) (hsplits : Splits 0 formula.toList ls [])
    (h : Spaced (ls.map Lexeme.text) text.toList) :
    ∃ e', parse text = .ok e' ∧ e'.Agrees Eq e := by
  obtain ⟨stream, htokenize, hderives⟩ := exists_derives_of_parse hparse
  obtain rfl := Except.ok.inj (hsplits.tokenize_eq_ok.symm.trans htokenize)
  have hdenotes : List.Forall₂ Denotes (ls.map Lexeme.text) (ls.map Lexeme.token) :=
    List.forall₂_map_left_iff.mpr (List.forall₂_map_right_iff.mpr
      (List.forall₂_same.mpr hsplits.denotes))
  have htokens : (ls.map Lexeme.placed).map PlacedToken.token = ls.map Lexeme.token :=
    List.map_map
  have hapart : (ls.map Lexeme.token).IsChain Apart := by
    rw [← htokens, List.isChain_map]
    exact hderives.isChain
  obtain ⟨ts, length, hts, hsame⟩ := h.exists_tokens hdenotes hapart 0
  obtain ⟨e', he', hagrees⟩ := hderives.exists_agrees (hsame.trans htokens.symm)
  refine ⟨e', ?_, hagrees⟩
  have htokenize' : tokenize text = .ok ⟨ts, length⟩ := hts
  rw [parse_of_tokenize htokenize', TokenStream.parse_eq_ok_iff.mpr he']
  rfl

/-! ### Texts with the lexemes of a formula -/

theorem Denotes.isBlank_eq_false {piece : List Char} {token : Token} (h : Denotes piece token) :
    ∀ c ∈ piece, isBlank c = false := by
  rcases h.cases_first with ⟨c, rfl, hc⟩ | ⟨first, tail, rfl, hfirst, htail, -⟩ |
    ⟨⟨first, tail, rfl, hfirst, htail⟩, -⟩
  · exact List.forall_mem_singleton.mpr (of_symbolToken? hc).1
  · exact List.forall_mem_cons.mpr ⟨isBlank_of_isLiteralChar (isLiteralChar_of_isNameStart hfirst),
      fun c hc => isBlank_of_isLiteralChar (isLiteralChar_of_isNameChar (htail c hc))⟩
  · exact List.forall_mem_cons.mpr
      ⟨isBlank_of_isLiteralChar (Cursor.isLiteralChar_of_isDigit hfirst),
        fun c hc => isBlank_of_isLiteralChar (htail c hc)⟩

theorem spaced_flatten (pieces : List (List Char)) : Spaced pieces pieces.flatten := by
  induction pieces with
  | nil => exact .nil
  | cons piece pieces ih => exact .piece piece ih

theorem Spaced.append_blanks {pieces : List (List Char)} {blanks text : List Char}
    (hblanks : ∀ c ∈ blanks, isBlank c) (h : Spaced pieces text) :
    Spaced pieces (blanks ++ text) := by
  induction blanks with
  | nil => exact h
  | cons c blanks ih =>
    obtain ⟨hc, hblanks⟩ := List.forall_mem_cons.mp hblanks
    exact .blank hc (ih hblanks)

/-- Without its blanks a formula is its lexemes, one after another. -/
theorem Splits.filter_isBlank {position : Nat} {text rest : List Char} {ls : List Lexeme}
    (h : Splits position text ls rest) (hrest : rest = []) :
    text.filter (fun c => !isBlank c) = (ls.map Lexeme.text).flatten := by
  induction h with
  | done => rw [hrest]; rfl
  | blank hc _ ih => rw [List.filter_cons_of_neg (by simp [hc]), ih hrest]
  | lexeme _ denotes _ ih =>
    have hkept := List.filter_eq_self.mpr fun c hc =>
      (Bool.not_eq_true' _).mpr (denotes.isBlank_eq_false c hc)
    rw [List.filter_append, ih hrest, hkept]
    rfl

theorem Splits.spaced {position : Nat} {text rest : List Char} {ls : List Lexeme}
    (h : Splits position text ls rest) (hrest : rest = []) : Spaced (ls.map Lexeme.text) text := by
  induction h with
  | done => exact hrest ▸ .nil
  | blank hc _ ih => exact .blank hc (ih hrest)
  | @lexeme _ piece _ _ _ _ _ _ _ ih => exact .piece piece (ih hrest)

/-- Blanks put into a formula where no lexeme is cut leave a text spaced from its lexemes. -/
theorem Splits.spaced_insert {position : Nat} {text rest before blanks after : List Char}
    {ls : List Lexeme} (h : Splits position text ls rest) (hrest : rest = [])
    (htext : text = before ++ after) (hblanks : ∀ c ∈ blanks, isBlank c)
    (hcut : ∀ l ∈ ls, position + before.length ≤ l.position ∨
      l.position + l.text.length ≤ position + before.length) :
    Spaced (ls.map Lexeme.text) (before ++ (blanks ++ after)) := by
  induction h generalizing before with
  | done position text =>
    obtain ⟨rfl, rfl⟩ := List.append_eq_nil_iff.mp (htext.symm.trans hrest)
    rw [List.nil_append]
    exact .append_blanks hblanks .nil
  | @blank position c text rest ls hc tail ih =>
    cases before with
    | nil =>
      obtain rfl : c :: text = after := htext
      rw [List.nil_append]
      exact .append_blanks hblanks (.blank hc (tail.spaced hrest))
    | cons first before =>
      obtain ⟨rfl, hbefore⟩ := List.cons.inj htext
      refine .blank hc (ih hrest hbefore fun l hl => ?_)
      have := hcut l hl
      rw [List.length_cons] at this
      omega
  | @lexeme position piece text rest token ls _ _ tail ih =>
    obtain ⟨hfirst, hcut⟩ := List.forall_mem_cons.mp hcut
    rcases Nat.eq_zero_or_pos before.length with hnil | hpos
    · obtain rfl := List.eq_nil_of_length_eq_zero hnil
      obtain rfl : piece ++ text = after := htext
      rw [List.nil_append]
      exact .append_blanks hblanks (.piece piece (tail.spaced hrest))
    -- the cut does not fall into the first lexeme, so it comes after the whole of it
    · have hpiece : piece.length ≤ before.length := by
        dsimp only at hfirst
        omega
      obtain ⟨between, rfl⟩ := List.prefix_of_prefix_length_le (List.prefix_append piece text)
        (htext ▸ List.prefix_append before after) hpiece
      rw [List.append_assoc] at htext ⊢
      refine .piece piece (ih hrest (List.append_cancel_left htext) fun l hl => ?_)
      have := hcut l hl
      rw [List.length_append] at this
      omega

/-- Without its blanks an accepted formula is accepted, with the same expression. -/
theorem exists_parse_withoutBlanks {formula : String} {e : Expr} (h : parse formula = .ok e) :
    ∃ e', parse (withoutBlanks formula) = .ok e' ∧ e'.Agrees Eq e := by
  obtain ⟨stream, htokenize, -⟩ := exists_derives_of_parse h
  obtain ⟨ls, hsplits, -⟩ := tokenize_eq_ok_iff.mp htokenize
  refine Spaced.exists_parse h hsplits ?_
  rw [withoutBlanks, String.toList_ofList, hsplits.filter_isBlank rfl]
  exact spaced_flatten _

namespace Expr

theorem Agrees.symm {e e' : Expr} (h : e'.Agrees Eq e) : e.Agrees Eq e' := by
  induction h with
  | literal h => exact .literal h.symm
  | var => exact .var _ _ _
  | binary op _ _ ihl ihr => exact .binary op ihl ihr
  | negate _ ih => exact .negate ih

theorem Agrees.trans {e e' e'' : Expr} (h : e''.Agrees Eq e') (h' : e'.Agrees Eq e) :
    e''.Agrees Eq e := by
  induction h generalizing e with
  | literal h =>
    cases h' with
    | literal h' => exact .literal (h.trans h')
  | var =>
    cases h' with
    | var => exact .var _ _ _
  | binary op _ _ ihl ihr =>
    cases h' with
    | binary _ hl hr => exact .binary op (ihl hl) (ihr hr)
  | negate _ ih =>
    cases h' with
    | negate h' => exact .negate (ih h')

end Expr

/-- Accepted formulas that are alike but for their blanks have the same expression. -/
theorem agrees_of_withoutBlanks_eq {formula other : String} {e e' : Expr}
    (h : parse formula = .ok e) (h' : parse other = .ok e')
    (hsame : withoutBlanks other = withoutBlanks formula) : e'.Agrees Eq e := by
  obtain ⟨bare, hbare, hagrees⟩ := exists_parse_withoutBlanks h
  obtain ⟨bare', hbare', hagrees'⟩ := exists_parse_withoutBlanks h'
  rw [hsame, hbare] at hbare'
  obtain rfl := Except.ok.inj hbare'
  exact hagrees'.symm.trans hagrees

end QuestFormula
