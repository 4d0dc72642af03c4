import QuestFormula.Proofs.Formula.Lexer
import QuestFormula.Proofs.Formula.Parser

/-! What a formula splits into, said of its text alone.  The pieces of a formula are blanks,
lexemes, and runs of letters, digits, underscores and points after a digit; a run is a lexeme only
if it is a plain literal.  `Splits` takes the longest piece again and again from the left, and
`FaultAt` says where there is no piece or the longest one is no lexeme.  Every text splits up to its
end or up to a fault, and the lexer follows the split, so it gives the tokens of the lexemes or that
fault, and never both.  A split to the end is a tiling: the lexemes stand at their positions, one
after another, and all else is blank. -/

namespace QuestFormula

/-- The text is a lexeme, and the token is its value. -/
inductive Denotes : List Char → Token → Prop
  | operator (op : Operator) : Denotes [op.symbol] (.operator op)
  | openParen : Denotes ['('] .openParen
  | closeParen : Denotes [')'] .closeParen
  | name {text : String} (h : IsIdentifier text) : Denotes text.toList (.name text)
  | number {text : List Char} {d : Decimal} (h : PlainText text d) :
      Denotes text (.number (d.toFloat false))

/-- The text begins with a digit and goes on with letters, digits, underscores and points. -/
def IsRun (text : List Char) : Prop :=
  ∃ first tail, text = first :: tail ∧ first.isDigit ∧ ∀ c ∈ tail, isLiteralChar c

/-- The texts that a formula is made of. -/
inductive IsPiece : List Char → Prop
  | blank {c : Char} (h : isBlank c) : IsPiece [c]
  | lexeme {text : List Char} {token : Token} (h : Denotes text token) : IsPiece text
  | run {text : List Char} (h : IsRun text) : IsPiece text

/-- The text begins with the piece, and with no longer one. -/
structure StartsWith (piece text : List Char) : Prop where
  isPiece : IsPiece piece
  isPrefix : piece <+: text
  longest : ∀ other, IsPiece other → other <+: text → other.length ≤ piece.length

/-- A token with its text and the number of characters before it. -/
structure Lexeme where
  token : Token
  text : List Char
  position : Nat

/-- The lexeme as the lexer gives it. -/
def Lexeme.placed (l : Lexeme) : PlacedToken := ⟨l.token, l.position⟩

/-- The text at a position splits, the longest piece first, into blanks and the lexemes, up to the
rest. -/
inductive Splits : Nat → List Char → List Lexeme → List Char → Prop
  | done (position : Nat) (text : List Char) : Splits position text [] text
  | blank {position : Nat} {c : Char} {text rest : List Char} {ls : List Lexeme} (h : isBlank c)
      (tail : Splits (position + 1) text ls rest) : Splits position (c :: text) ls rest
  | lexeme {position : Nat} {piece text rest : List Char} {token : Token} {ls : List Lexeme}
      (longest : StartsWith piece (piece ++ text)) (denotes : Denotes piece token)
      (tail : Splits (position + piece.length) text ls rest) :
      Splits position (piece ++ text) (⟨token, piece, position⟩ :: ls) rest

/-- The text begins with a run that is no lexeme, or with a character that begins no piece. -/
inductive FaultAt : List Char → Fault → Prop
  | run {run rest : List Char} (isRun : IsRun run) (longest : StartsWith run (run ++ rest))
      (malformed : ∀ token, ¬Denotes run token) :
      FaultAt (run ++ rest) (.malformedNumber (String.ofList run))
  | character {c : Char} {rest : List Char}
      (nothing : ∀ piece, piece <+: c :: rest → ¬IsPiece piece) :
      FaultAt (c :: rest) (.unexpectedCharacter c)

/-- The lexemes stand at their positions, one after another, and all else is blank. -/
structure Tiles (formula : List Char) (ls : List Lexeme) : Prop where
  ne_nil : ∀ l ∈ ls, l.text ≠ []
  stands : ∀ l ∈ ls, l.text <+: formula.drop l.position
  ordered : ls.Pairwise fun l l' => l.position + l.text.length ≤ l'.position
  covers : ∀ i c, formula[i]? = some c →
    isBlank c ∨ ∃ l ∈ ls, l.position ≤ i ∧ i < l.position + l.text.length

/-! ### Pieces -/

theorem denotes_of_symbolToken? {c : Char} {token : Token} (h : symbolToken? c = some token) :
    Denotes [c] token := by
  rw [symbolToken?] at h
  split_ifs at h with h1 h2 h3 h4 h5 h6 <;> (cases h; subst_vars)
  · exact .operator .add
  · exact .operator .sub
  · exact .operator .mul
  · exact .operator .div
  · exact .openParen
  · exact .closeParen

theorem denotes_name {first : Char} {tail : List Char} (hfirst : isNameStart first)
    (htail : ∀ c ∈ tail, isNameChar c) :
    Denotes (first :: tail) (.name (String.ofList (first :: tail))) := by
  have h : IsIdentifier (String.ofList (first :: tail)) :=
    ⟨first, tail, String.toList_ofList, hfirst, htail⟩
  simpa only [String.toList_ofList] using Denotes.name h

theorem PlainText.isRun {text : List Char} {d : Decimal} (h : PlainText text d) : IsRun text := by
  obtain ⟨first, tail, rfl, hfirst⟩ := h.exists_first
  exact ⟨first, tail, rfl, hfirst, fun c hc => h.isLiteralChar c (List.mem_cons_of_mem _ hc)⟩

/-- What a lexeme is, by its first character. -/
theorem Denotes.cases_first {text : List Char} {token : Token} (h : Denotes text token) :
    (∃ c, text = [c] ∧ symbolToken? c = some token) ∨
    (∃ first tail, text = first :: tail ∧ isNameStart first ∧ (∀ c ∈ tail, isNameChar c) ∧
      token = .name (String.ofList text)) ∨
    IsRun text ∧ ∃ d, PlainText text d ∧ token = .number (d.toFloat false) := by
  cases h with
  | operator op => exact .inl ⟨_, rfl, by cases op <;> rfl⟩
  | openParen => exact .inl ⟨_, rfl, rfl⟩
  | closeParen => exact .inl ⟨_, rfl, rfl⟩
  | name h =>
    obtain ⟨first, tail, htext, hfirst, htail⟩ := h
    exact .inr (.inl ⟨first, tail, htext, hfirst, htail, by rw [String.ofList_toList]⟩)
  | number h => exact .inr (.inr ⟨h.isRun, _, h, rfl⟩)

theorem isLiteralChar_of_isNameStart {c : Char} (h : isNameStart c) : isLiteralChar c :=
  isLiteralChar_of_isNameChar (Cursor.isNameChar_of_isNameStart h)

theorem Denotes.exists_first {text : List Char} {token : Token} (h : Denotes text token) :
    ∃ first tail, text = first :: tail ∧ isBlank first = false := by
  rcases h.cases_first with ⟨c, rfl, hc⟩ | ⟨first, tail, rfl, hfirst, -⟩ |
    ⟨⟨first, tail, rfl, hfirst, -⟩, -⟩
  · exact ⟨c, [], rfl, (of_symbolToken? hc).1⟩
  · exact ⟨first, tail, rfl, isBlank_of_isLiteralChar (isLiteralChar_of_isNameStart hfirst)⟩
  · exact ⟨first, tail, rfl, isBlank_of_isLiteralChar (Cursor.isLiteralChar_of_isDigit hfirst)⟩

theorem Denotes.ne_finish {text : List Char} {token : Token} (h : Denotes text token) :
    token ≠ .finish := by
  cases h <;> nofun

/-- A piece is a blank or a symbol, or goes on as its first character does. -/
theorem IsPiece.cases_first {first : Char} {tail : List Char} (h : IsPiece (first :: tail)) :
    (tail = [] ∧ (isBlank first ∨ ∃ token, symbolToken? first = some token)) ∨
    (isNameStart first ∧ ∀ c ∈ tail, isNameChar c) ∨
    first.isDigit ∧ ∀ c ∈ tail, isLiteralChar c := by
  cases h with
  | blank h => exact .inl ⟨rfl, .inl h⟩
  | lexeme h =>
    rcases h.cases_first with ⟨c, hc, hsymbol⟩ | ⟨first', tail', hc, hfirst, htail, -⟩ |
      ⟨⟨first', tail', hc, hfirst, htail⟩, -⟩
    · obtain ⟨rfl, rfl⟩ := List.cons.inj hc
      exact .inl ⟨rfl, .inr ⟨_, hsymbol⟩⟩
    · obtain ⟨rfl, rfl⟩ := List.cons.inj hc
      exact .inr (.inl ⟨hfirst, htail⟩)
    · obtain ⟨rfl, rfl⟩ := List.cons.inj hc
      exact .inr (.inr ⟨hfirst, htail⟩)
  | run h =>
    obtain ⟨first', tail', hc, hfirst, htail⟩ := h
    obtain ⟨rfl, rfl⟩ := List.cons.inj hc
    exact .inr (.inr ⟨hfirst, htail⟩)

theorem not_blank_or_symbol {c : Char} (h : isLiteralChar c) :
    ¬(isBlank c ∨ ∃ token, symbolToken? c = some token) := by
  rintro (hblank | ⟨token, hsymbol⟩)
  · simp [isBlank_of_isLiteralChar h] at hblank
  · simp [(of_symbolToken? hsymbol).2.1] at h

theorem IsPiece.ne_nil {text : List Char} (h : IsPiece text) : text ≠ [] := by
  cases h with
  | blank => nofun
  | lexeme h =>
    obtain ⟨first, tail, rfl, -⟩ := h.exists_first
    nofun
  | run h =>
    obtain ⟨first, tail, rfl, -⟩ := h
    nofun

/-! ### Longest pieces -/

theorem startsWith_symbol {c : Char} {token : Token} (h : symbolToken? c = some token)
    (rest : List Char) : StartsWith [c] (c :: rest) := by
  refine ⟨.lexeme (denotes_of_symbolToken? h), List.prefix_append [c] rest,
    fun other hother hprefix => ?_⟩
  obtain ⟨first, tail, rfl⟩ := List.exists_cons_of_ne_nil hother.ne_nil
  obtain ⟨rfl, -⟩ := List.cons_prefix_cons.mp hprefix
  rcases hother.cases_first with ⟨rfl, -⟩ | ⟨hfirst, -⟩ | ⟨hfirst, -⟩
  · exact le_rfl
  · exact absurd (.inr ⟨token, h⟩) (not_blank_or_symbol (isLiteralChar_of_isNameStart hfirst))
  · exact absurd (.inr ⟨token, h⟩)
      (not_blank_or_symbol (Cursor.isLiteralChar_of_isDigit hfirst))

/-- The longest piece is a run of a class of characters, if all pieces there are in the class. -/
theorem startsWith_takeWhile {p : Char → Bool} {text : List Char}
    (hpiece : IsPiece (text.takeWhile p))
    (hall : ∀ other, IsPiece other → other <+: text → ∀ c ∈ other, p c) :
    StartsWith (text.takeWhile p) text := by
  refine ⟨hpiece, List.takeWhile_prefix p, fun other hother hprefix => ?_⟩
  obtain ⟨more, rfl⟩ := hprefix
  rw [List.takeWhile_append_of_pos (hall other hother (List.prefix_append _ _)), List.length_append]
  exact Nat.le_add_right _ _

theorem exists_run {first : Char} {tail : List Char} (hfirst : first.isDigit) :
    ∃ run rest, first :: tail = run ++ rest ∧ IsRun run ∧ StartsWith run (run ++ rest) := by
  have hliteral := Cursor.isLiteralChar_of_isDigit hfirst
  have hrun : IsRun ((first :: tail).takeWhile isLiteralChar) := by
    rw [List.takeWhile_cons_of_pos hliteral]
    exact ⟨first, _, rfl, hfirst, fun c => List.mem_takeWhile_imp⟩
  refine ⟨_, _, List.takeWhile_append_dropWhile.symm, hrun, ?_⟩
  rw [List.takeWhile_append_dropWhile]
  -- any other piece here begins with the same digit, so it goes on within the class
  refine startsWith_takeWhile (.run hrun) fun other hother hprefix c hc => ?_
  obtain ⟨first', tail', rfl⟩ := List.exists_cons_of_ne_nil hother.ne_nil
  obtain ⟨rfl, -⟩ := List.cons_prefix_cons.mp hprefix
  rcases hother.cases_first with ⟨-, h⟩ | ⟨hname, -⟩ | ⟨-, htail⟩
  · exact absurd h (not_blank_or_symbol hliteral)
  · exact absurd hfirst (Cursor.not_isDigit_of_isNameStart hname)
  · exact (List.mem_cons.mp hc).elim (· ▸ hliteral) (htail c)

theorem exists_name {first : Char} {tail : List Char} (hfirst : isNameStart first) :
    ∃ name rest, first :: tail = name ++ rest ∧ Denotes name (.name (String.ofList name)) ∧
      StartsWith name (name ++ rest) := by
  have hchar := Cursor.isNameChar_of_isNameStart hfirst
  have hname : Denotes ((first :: tail).takeWhile isNameChar)
      (.name (String.ofList ((first :: tail).takeWhile isNameChar))) := by
    rw [List.takeWhile_cons_of_pos hchar]
    exact denotes_name hfirst fun c => List.mem_takeWhile_imp
  refine ⟨_, _, List.takeWhile_append_dropWhile.symm, hname, ?_⟩
  rw [List.takeWhile_append_dropWhile]
  refine startsWith_takeWhile (.lexeme hname) fun other hother hprefix c hc => ?_
  obtain ⟨first', tail', rfl⟩ := List.exists_cons_of_ne_nil hother.ne_nil
  obtain ⟨rfl, -⟩ := List.cons_prefix_cons.mp hprefix
  rcases hother.cases_first with ⟨-, h⟩ | ⟨-, htail⟩ | ⟨hdigit, -⟩
  · exact absurd h (not_blank_or_symbol (isLiteralChar_of_isNameChar hchar))
  · exact (List.mem_cons.mp hc).elim (· ▸ hchar) (htail c)
  · exact absurd hdigit (Cursor.not_isDigit_of_isNameStart hfirst)

/-- What follows the longest piece does not make it longer. -/
theorem StartsWith.head_eq_false {piece rest : List Char} {p : Char → Bool}
    (h : StartsWith piece (piece ++ rest)) (hlonger : ∀ c, p c → IsPiece (piece ++ [c])) :
    ∀ c ∈ rest.head?, p c = false := by
  intro c hc
  obtain ⟨more, rfl⟩ := List.head?_eq_some_iff.mp hc
  refine Bool.eq_false_iff.mpr fun hp => ?_
  have hle := h.longest _ (hlonger c hp) ⟨more, by simp⟩
  rw [List.length_append, List.length_singleton] at hle
  omega

theorem IsRun.concat {run : List Char} (h : IsRun run) {c : Char} (hc : isLiteralChar c) :
    IsRun (run ++ [c]) := by
  obtain ⟨first, tail, rfl, hfirst, htail⟩ := h
  refine ⟨first, tail ++ [c], rfl, hfirst, fun c' hc' => ?_⟩
  rcases List.mem_append.mp hc' with hc' | hc'
  · exact htail c' hc'
  · exact List.mem_singleton.mp hc' ▸ hc

theorem StartsWith.separate {run rest : List Char} (h : StartsWith run (run ++ rest))
    (hrun : IsRun run) : Separate rest :=
  h.head_eq_false fun _ hc => .run (hrun.concat hc)

/-! ### The lexer follows the split -/

namespace Cursor

theorem take_of_denotes {piece rest : List Char} {token : Token} (h : Denotes piece token)
    (hlongest : StartsWith piece (piece ++ rest)) (position : Nat) :
    take ⟨piece ++ rest, position⟩ = (.ok token, ⟨rest, position + piece.length⟩) := by
  rcases h.cases_first with ⟨c, rfl, hc⟩ | ⟨first, tail, rfl, hfirst, htail, rfl⟩ |
    ⟨hrun, d, hd, rfl⟩
  · exact take_symbol hc rest position
  · have hname : IsIdentifier (String.ofList (first :: tail)) :=
      ⟨first, tail, String.toList_ofList, hfirst, htail⟩
    have hrest : ∀ c ∈ rest.head?, isNameChar c = false :=
      hlongest.head_eq_false fun c hc => .lexeme (denotes_name hfirst fun c' hc' =>
        (List.mem_append.mp hc').elim (htail c') fun h => List.mem_singleton.mp h ▸ hc)
    simpa only [String.toList_ofList] using take_name hname hrest position
  · exact take_number hd (hlongest.separate hrun) position

/-- A run that is no lexeme is taken as a whole. -/
theorem take_of_malformed {run rest : List Char} (hrun : IsRun run) (hrest : Separate rest)
    (hmalformed : ∀ token, ¬Denotes run token) (position : Nat) :
    take ⟨run ++ rest, position⟩ =
      (.error (.malformedNumber (String.ofList run)), ⟨rest, position + run.length⟩) := by
  have hread : readLiteral? run = none := by
    refine Option.eq_none_iff_forall_ne_some.mpr fun x hx => ?_
    obtain ⟨d, hd, -⟩ := readLiteral?_eq_some_iff.mp hx
    exact hmalformed _ (.number hd)
  obtain ⟨first, tail, rfl, hfirst, htail⟩ := hrun
  have hliteral := isLiteralChar_of_isDigit hfirst
  obtain ⟨htake, hdrop⟩ :=
    takeWhile_dropWhile_append (List.forall_mem_cons.mpr ⟨hliteral, htail⟩) hrest
  rw [List.cons_append] at htake hdrop ⊢
  simp only [take, if_pos hfirst, skipWhile, htake, hdrop, hread]

/-- A character that begins no piece stays where it is. -/
theorem take_of_nothing {c : Char} {rest : List Char}
    (nothing : ∀ piece, piece <+: c :: rest → ¬IsPiece piece) (position : Nat) :
    isBlank c = false ∧
      take ⟨c :: rest, position⟩ = (.error (.unexpectedCharacter c), ⟨c :: rest, position⟩) := by
  have hnothing : ¬IsPiece [c] := nothing [c] (List.prefix_append [c] rest)
  have hdigit : ¬c.isDigit := fun h =>
    hnothing (.run ⟨c, [], rfl, h, List.forall_mem_nil _⟩)
  have hname : ¬isNameStart c := fun h =>
    hnothing (.lexeme (denotes_name h (List.forall_mem_nil _)))
  have hsymbol : symbolToken? c = none :=
    Option.eq_none_iff_forall_ne_some.mpr fun token h =>
      hnothing (.lexeme (denotes_of_symbolToken? h))
  refine ⟨Bool.eq_false_iff.mpr fun h => hnothing (.blank h), ?_⟩
  simp only [take, if_neg hdigit, if_neg hname, hsymbol]

theorem take_of_faultAt {text : List Char} {fault : Fault} (h : FaultAt text fault)
    (position : Nat) :
    (∀ first ∈ text.head?, isBlank first = false) ∧
      (take ⟨text, position⟩).1 = .error fault := by
  cases h with
  | @run run rest hrun hlongest hmalformed =>
    rw [take_of_malformed hrun (hlongest.separate hrun) hmalformed]
    obtain ⟨first, tail, rfl, hfirst, -⟩ := hrun
    refine ⟨?_, rfl⟩
    rintro _ ⟨⟩
    exact isBlank_of_isLiteralChar (isLiteralChar_of_isDigit hfirst)
  | @character c rest nothing =>
    obtain ⟨hblank, htake⟩ := take_of_nothing nothing position
    rw [htake]
    refine ⟨?_, rfl⟩
    rintro _ ⟨⟩
    exact hblank

theorem tokens_of_faultAt {text : List Char} {fault : Fault} (h : FaultAt text fault)
    (position : Nat) : tokens ⟨text, position⟩ = .error ⟨position, fault⟩ := by
  obtain ⟨hblank, htake⟩ := take_of_faultAt h position
  exact tokens_of_take_error hblank htake

end Cursor

namespace Splits

variable {position : Nat} {text rest : List Char} {ls : List Lexeme}

theorem tokens_eq (h : Splits position text ls rest) :
    ∃ after, after + rest.length = position + text.length ∧
      Cursor.tokens ⟨text, position⟩ = (Cursor.tokens ⟨rest, after⟩).map fun stream =>
        { stream with tokens := ls.map Lexeme.placed ++ stream.tokens } := by
  -- position and remaining length have the same sum all along, which says where the rest begins
  induction h with
  | done position text =>
    refine ⟨position, rfl, ?_⟩
    cases Cursor.tokens ⟨text, position⟩ <;> rfl
  | @blank position c text rest ls hc _ ih =>
    obtain ⟨after, hafter, htokens⟩ := ih
    refine ⟨after, by rw [hafter, List.length_cons]; omega, ?_⟩
    rw [Cursor.tokens_blank hc, htokens]
  | @lexeme position piece text rest token ls longest denotes _ ih =>
    obtain ⟨after, hafter, htokens⟩ := ih
    refine ⟨after, by rw [hafter, List.length_append]; omega, ?_⟩
    obtain ⟨first, tail, rfl, hfirst⟩ := denotes.exists_first
    have hblank : ∀ c ∈ (first :: tail ++ text).head?, isBlank c = false := by
      rintro _ ⟨⟩
      exact hfirst
    rw [Cursor.tokens_eq_of_take hblank (Cursor.take_of_denotes denotes longest position)
      denotes.ne_finish, htokens]
    cases Cursor.tokens ⟨rest, after⟩ <;> rfl

theorem tokenize_eq_ok {formula : String} (h : Splits 0 formula.toList ls []) :
    tokenize formula = .ok ⟨ls.map Lexeme.placed, formula.length⟩ := by
  obtain ⟨after, hafter, htokens⟩ := h.tokens_eq
  rw [Nat.zero_add, String.length_toList, List.length_nil, Nat.add_zero] at hafter
  rw [tokenize, Cursor.start, htokens, Cursor.tokens_nil, hafter]
  simp [Except.map]

theorem tokenize_eq_error {formula : String} {fault : PlacedFault}
    (h : Splits 0 formula.toList ls rest) (hfault : FaultAt rest fault.fault)
    (hposition : fault.position + rest.length = formula.length) :
    tokenize formula = .error fault := by
  obtain ⟨after, hafter, htokens⟩ := h.tokens_eq
  rw [Nat.zero_add, String.length_toList, ← hposition] at hafter
  rw [tokenize, Cursor.start, htokens, Cursor.tokens_of_faultAt hfault, Nat.add_right_cancel hafter]
  rfl

end Splits

/-! ### Every text splits -/

/-- A text that is not empty begins with a blank, with a lexeme as its longest piece, or with a
fault. -/
theorem startsWith_or_faultAt (first : Char) (tail : List Char) :
    isBlank first ∨
    (∃ piece rest token, first :: tail = piece ++ rest ∧ StartsWith piece (piece ++ rest) ∧
      Denotes piece token) ∨
    ∃ fault, FaultAt (first :: tail) fault := by
  by_cases hdigit : first.isDigit
  · obtain ⟨run, rest, hsplit, hrun, hlongest⟩ := @exists_run first tail hdigit
    by_cases hvalue : ∃ token, Denotes run token
    · obtain ⟨token, htoken⟩ := hvalue
      exact .inr (.inl ⟨run, rest, token, hsplit, hlongest, htoken⟩)
    · rw [hsplit]
      exact .inr (.inr ⟨_, .run hrun hlongest (not_exists.mp hvalue)⟩)
  by_cases hname : isNameStart first
  · obtain ⟨name, rest, hsplit, htoken, hlongest⟩ := @exists_name first tail hname
    exact .inr (.inl ⟨name, rest, _, hsplit, hlongest, htoken⟩)
  by_cases hblank : isBlank first
  · exact .inl hblank
  by_cases hsymbol : ∃ token, symbolToken? first = some token
  · obtain ⟨token, hsymbol⟩ := hsymbol
    exact .inr (.inl ⟨[first], tail, token, rfl, startsWith_symbol hsymbol tail,
      denotes_of_symbolToken? hsymbol⟩)
  -- nothing else begins a piece
  refine .inr (.inr ⟨_, .character fun piece hprefix hpiece => ?_⟩)
  obtain ⟨first', tail', rfl⟩ := List.exists_cons_of_ne_nil hpiece.ne_nil
  obtain ⟨rfl, -⟩ := List.cons_prefix_cons.mp hprefix
  rcases hpiece.cases_first with ⟨-, h⟩ | ⟨h, -⟩ | ⟨h, -⟩
  · exact h.elim hblank hsymbol
  · exact hname h
  · exact hdigit h

theorem exists_splits (position : Nat) (text : List Char) :
    ∃ ls rest, Splits position text ls rest ∧ (rest = [] ∨ ∃ fault, FaultAt rest fault) := by
  match text with
  | [] => exact ⟨[], [], .done position [], .inl rfl⟩
  | first :: tail =>
    rcases startsWith_or_faultAt first tail with
      hblank | ⟨piece, text, token, hsplit, hlongest, htoken⟩ | hfault
    · obtain ⟨ls, rest, h, hrest⟩ := exists_splits (position + 1) tail
      exact ⟨ls, rest, .blank hblank h, hrest⟩
    · -- a piece is not empty, so what follows it is shorter
      have hshorter : text.length ≤ tail.length := by
        have hpos := List.length_pos_iff.mpr hlongest.isPiece.ne_nil
        have hlength := congrArg List.length hsplit
        rw [List.length_cons, List.length_append] at hlength
        omega
      obtain ⟨ls, rest, h, hrest⟩ := exists_splits (position + piece.length) text
      rw [hsplit]
      exact ⟨_, rest, .lexeme hlongest htoken h, hrest⟩
    · exact ⟨[], first :: tail, .done position _, .inr hfault⟩
termination_by text.length

namespace Splits

variable {formula text rest : List Char} {position : Nat} {ls : List Lexeme}

theorem denotes (h : Splits position text ls rest) : ∀ l ∈ ls, Denotes l.text l.token := by
  induction h with
  | done => nofun
  | blank _ _ ih => exact ih
  | lexeme _ denotes _ ih => exact List.forall_mem_cons.mpr ⟨denotes, ih⟩

theorem le_position (h : Splits position text ls rest) : ∀ l ∈ ls, position ≤ l.position := by
  induction h with
  | done => nofun
  | blank _ _ ih => exact fun l hl => Nat.le_of_succ_le (ih l hl)
  | lexeme _ _ _ ih =>
    exact List.forall_mem_cons.mpr ⟨le_rfl, fun l hl => (Nat.le_add_right _ _).trans (ih l hl)⟩

theorem ordered (h : Splits position text ls rest) :
    ls.Pairwise fun l l' => l.position + l.text.length ≤ l'.position := by
  induction h with
  | done => exact .nil
  | blank _ _ ih => exact ih
  | lexeme _ _ tail ih => exact ih.cons tail.le_position

theorem stands (h : Splits position text ls rest) (htext : formula.drop position = text) :
    ∀ l ∈ ls, l.text <+: formula.drop l.position := by
  induction h with
  | done => nofun
  | blank _ _ ih => exact ih (by rw [← List.drop_drop, htext]; rfl)
  | @lexeme position piece text rest token ls _ _ _ ih =>
    refine List.forall_mem_cons.mpr ⟨⟨text, htext.symm⟩, ih ?_⟩
    rw [← List.drop_drop, htext, List.drop_left]

theorem covers (h : Splits position text ls rest) {i : Nat} {c : Char} (hc : text[i]? = some c)
    (hi : i + rest.length < text.length) :
    isBlank c ∨
      ∃ l ∈ ls, l.position ≤ position + i ∧ position + i < l.position + l.text.length := by
  induction h generalizing i with
  | done => omega
  | @blank position _ text rest ls hblank _ ih =>
    cases i with
    | zero => exact .inl (Option.some.inj hc ▸ hblank)
    | succ i =>
      rw [List.length_cons] at hi
      have hnext : position + (i + 1) = position + 1 + i := by omega
      rw [hnext]
      exact ih hc (by omega)
  | @lexeme position piece text rest token ls _ _ _ ih =>
    by_cases hpiece : i < piece.length
    · exact .inr ⟨_, List.mem_cons_self, Nat.le_add_right _ _, Nat.add_lt_add_left hpiece _⟩
    · rw [List.getElem?_append_right (Nat.not_lt.mp hpiece)] at hc
      rw [List.length_append] at hi
      refine (ih hc (by omega)).imp_right fun ⟨l, hl, hle, hlt⟩ => ?_
      exact ⟨l, List.mem_cons_of_mem _ hl, by omega, by omega⟩

theorem tiles (h : Splits 0 formula ls []) : Tiles formula ls where
  ne_nil l hl := (IsPiece.lexeme (h.denotes l hl)).ne_nil
  stands := h.stands rfl
  ordered := h.ordered
  covers i c hc := by
    have hi := (List.getElem?_eq_some_iff.mp hc).1
    simpa only [Nat.zero_add] using h.covers hc hi

theorem isSuffix (h : Splits position text ls rest) : rest <:+ text := by
  induction h with
  | done => exact List.suffix_rfl
  | blank _ _ ih => exact ih.trans (List.suffix_cons _ _)
  | lexeme _ _ _ ih => exact ih.trans (List.suffix_append _ _)

end Splits

/-! ### The lexer and the split -/

/-- A formula splits to its end, and the lexer gives the lexemes' tokens; or it splits up to a
fault, and the lexer gives that. -/
theorem tokenize_cases (formula : String) :
    (∃ ls, Splits 0 formula.toList ls [] ∧
      tokenize formula = .ok ⟨ls.map Lexeme.placed, formula.length⟩) ∨
    ∃ ls rest fault, Splits 0 formula.toList ls rest ∧
      fault.position + rest.length = formula.length ∧ FaultAt rest fault.fault ∧
      tokenize formula = .error fault := by
  obtain ⟨ls, rest, hsplits, rfl | ⟨fault, hfault⟩⟩ := exists_splits 0 formula.toList
  · exact .inl ⟨ls, hsplits, hsplits.tokenize_eq_ok⟩
  · have hposition : formula.length - rest.length + rest.length = formula.length := by
      rw [← String.length_toList]
      exact Nat.sub_add_cancel hsplits.isSuffix.length_le
    exact .inr ⟨ls, rest, ⟨formula.length - rest.length, fault⟩, hsplits, hposition, hfault,
      hsplits.tokenize_eq_error hfault hposition⟩

theorem tokenize_eq_ok_iff {formula : String} {stream : TokenStream} :
    tokenize formula = .ok stream ↔ ∃ ls, Splits 0 formula.toList ls [] ∧
      stream = ⟨ls.map Lexeme.placed, formula.length⟩ := by
  constructor
  · intro h
    rcases tokenize_cases formula with ⟨ls, hsplits, hok⟩ | ⟨_, _, fault, _, _, _, herror⟩
    · exact ⟨ls, hsplits, Except.ok.inj (h.symm.trans hok)⟩
    · cases h.symm.trans herror
  · rintro ⟨ls, hsplits, rfl⟩
    exact hsplits.tokenize_eq_ok

theorem tokenize_eq_error_iff {formula : String} {fault : PlacedFault} :
    tokenize formula = .error fault ↔ ∃ ls rest, Splits 0 formula.toList ls rest ∧
      fault.position + rest.length = formula.length ∧ FaultAt rest fault.fault := by
  constructor
  · intro h
    rcases tokenize_cases formula with
      ⟨ls, _, hok⟩ | ⟨ls, rest, fault', hsplits, hposition, hfault, herror⟩
    · cases h.symm.trans hok
    · obtain rfl := Except.error.inj (h.symm.trans herror)
      exact ⟨ls, rest, hsplits, hposition, hfault⟩
  · rintro ⟨ls, rest, hsplits, hposition, hfault⟩
    exact hsplits.tokenize_eq_error hfault hposition

/-- Every token stands in the formula, and none of them is its end. -/
theorem mem_of_tokenize {formula : String} {stream : TokenStream}
    (h : tokenize formula = .ok stream) : stream.length = formula.length ∧
      ∀ t ∈ stream.tokens, t.token ≠ .finish ∧ t.position < formula.length := by
  obtain ⟨ls, hsplits, rfl⟩ := tokenize_eq_ok_iff.mp h
  refine ⟨rfl, fun t ht => ?_⟩
  obtain ⟨l, hl, rfl⟩ := List.mem_map.mp ht
  refine ⟨(hsplits.denotes l hl).ne_finish, ?_⟩
  have hlength := (hsplits.tiles.stands l hl).length_le
  have hpos := List.length_pos_iff.mpr (hsplits.tiles.ne_nil l hl)
  rw [List.length_drop, String.length_toList] at hlength
  show l.position < formula.length
  omega

theorem tokenize_blank {formula : String} (h : ∀ c ∈ formula.toList, isBlank c) :
    tokenize formula = .ok ⟨[], formula.length⟩ := by
  have hsplits (position : Nat) (text : List Char) (htext : ∀ c ∈ text, isBlank c) :
      Splits position text [] [] := by
    induction text generalizing position with
    | nil => exact .done position []
    | cons c text ih =>
      obtain ⟨hc, htext⟩ := List.forall_mem_cons.mp htext
      exact .blank hc (ih (position + 1) htext)
  exact (hsplits 0 _ h).tokenize_eq_ok

theorem TokenStream.toList_injective {s s' : TokenStream} (h : s.toList = s'.toList) : s = s' := by
  obtain ⟨htokens, hfinish⟩ := List.append_inj' h rfl
  obtain ⟨tokens, length⟩ := s
  obtain ⟨tokens', length'⟩ := s'
  simp_all

/-- A formula has tokens exactly if it splits by longest match, and they are those of its lexemes
with the end of the formula after them; the lexemes tile the formula, and each token is the value of
its lexeme.  Otherwise the fault is at the first place where the split does not go on, and parsing
gives it with the whole formula; its message has the whole run there, or the character. -/
theorem tokenize_longest_match (formula : String) :
    (∀ stream, tokenize formula = .ok stream ↔ ∃ ls, Splits 0 formula.toList ls [] ∧
      stream.toList = ls.map Lexeme.placed ++ [⟨.finish, formula.length⟩]) ∧
    (∀ ls, Splits 0 formula.toList ls [] → Tiles formula.toList ls ∧
      ∀ l ∈ ls, Denotes l.text l.token ∧ l.token ≠ .finish) ∧
    (∀ fault, tokenize formula = .error fault ↔ ∃ ls rest, Splits 0 formula.toList ls rest ∧
      fault.position + rest.length = formula.length ∧ FaultAt rest fault.fault) ∧
    ∀ fault, tokenize formula = .error fault → parse formula = .error (.parse formula fault) ∧
      ((∃ run, IsRun run ∧ StartsWith run (formula.toList.drop fault.position) ∧
        fault.fault.message = s!"Malformed numeric literal '{String.ofList run}'") ∨
      ∃ c ∈ (formula.toList.drop fault.position).head?,
        fault.fault.message = s!"Unexpected character '{c}'") := by
  refine ⟨fun stream => ?_, fun ls h => ⟨h.tiles, fun l hl => ?_⟩,
    fun fault => tokenize_eq_error_iff, fun fault h => ⟨parse_of_tokenize_error h, ?_⟩⟩
  · rw [tokenize_eq_ok_iff]
    refine exists_congr fun ls => and_congr_right fun _ => ⟨fun h => h ▸ rfl, fun h => ?_⟩
    exact @TokenStream.toList_injective stream ⟨ls.map Lexeme.placed, formula.length⟩ h
  · exact ⟨h.denotes l hl, (h.denotes l hl).ne_finish⟩
  · obtain ⟨ls, rest, hsplits, hposition, hfault⟩ := tokenize_eq_error_iff.mp h
    have hrest : formula.toList.drop fault.position = rest := by
      rw [List.suffix_iff_eq_drop.mp hsplits.isSuffix, String.length_toList, ← hposition,
        Nat.add_sub_cancel]
    rw [hrest]
    generalize fault.fault = f at hfault
    cases hfault with
    | run isRun longest => exact .inl ⟨_, isRun, longest, rfl⟩
    | character => exact .inr ⟨_, rfl, rfl⟩

/-- A wide blank between tokens, and a run with two points after them. -/
theorem tokenize_longest_match_points :
    (∃ ls, Splits 0 "kills\u3000*_2".toList ls [] ∧
      ls.map Lexeme.placed = [⟨.name "kills", 0⟩, ⟨.operator .mul, 6⟩, ⟨.name "_2", 7⟩]) ∧
    tokenize "kills\u3000*_2 1.2.3" = .error ⟨10, .malformedNumber "1.2.3"⟩ ∧
    parse "kills\u3000*_2 1.2.3" =
      .error (.parse "kills\u3000*_2 1.2.3" ⟨10, .malformedNumber "1.2.3"⟩) := by
  have hok : tokenize "kills\u3000*_2" =
      .ok ⟨[⟨.name "kills", 0⟩, ⟨.operator .mul, 6⟩, ⟨.name "_2", 7⟩], 9⟩ := by cbv
  have herror : tokenize "kills\u3000*_2 1.2.3" = .error ⟨10, .malformedNumber "1.2.3"⟩ := by cbv
  obtain ⟨ls, hsplits, hls⟩ := ((tokenize_longest_match _).1 _).mp hok
  refine ⟨⟨ls, hsplits, (List.append_inj' hls rfl).1.symm⟩, herror, ?_⟩
  exact ((tokenize_longest_match _).2.2.2 _ herror).1

end QuestFormula
