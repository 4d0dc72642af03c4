import QuestFormula.Formula.Lexer
import QuestFormula.Proofs.Number.Bits

/-! What the lexer reads.  `Lexes` says that a text is read as certain tokens, before whatever does
not go on with the last of them; each kind of token has its rule, and texts are put together by
`Lexes.append`.  In the other direction, a name that was read is an identifier and a number is not
negative. -/

namespace QuestFormula

/-- The text begins like a name and goes on like one. -/
def IsIdentifier (text : String) : Prop :=
  ∃ first tail, text.toList = first :: tail ∧ isNameStart first ∧ ∀ c ∈ tail, isNameChar c

/-! ### Characters -/

theorem isLiteralChar_of_isNameChar {c : Char} (h : isNameChar c) : isLiteralChar c := by
  simp [isLiteralChar, h]

theorem toNat_of_isLiteralChar {c : Char} (h : isLiteralChar c) :
    46 ≤ c.toNat ∧ c.toNat ≤ 122 := by
  simp only [isLiteralChar, isNameChar, Char.isAlphanum, Char.isAlpha, Char.isUpper, Char.isLower,
    Char.isDigit, Bool.or_eq_true, Bool.and_eq_true, decide_eq_true_eq, beq_iff_eq,
    UInt32.le_iff_toNat_le, ge_iff_le] at h
  change (((((65 ≤ c.toNat ∧ c.toNat ≤ 90) ∨ (97 ≤ c.toNat ∧ c.toNat ≤ 122)) ∨
    (48 ≤ c.toNat ∧ c.toNat ≤ 57)) ∨ c = '_') ∨ c = '.') at h
  rcases h with (((h | h) | h) | rfl) | rfl
  · omega
  · omega
  · omega
  · decide
  · decide

theorem isBlank_of_isLiteralChar {c : Char} (h : isLiteralChar c) : isBlank c = false := by
  obtain ⟨hle, hge⟩ := toNat_of_isLiteralChar h
  simp only [isBlank, Bool.or_eq_false_iff, Bool.and_eq_false_iff, decide_eq_false_iff_not,
    beq_eq_false_iff_ne]
  omega

/-- A character that is a token by itself is neither blank nor part of another token. -/
theorem of_symbolToken? {c : Char} {token : Token} (h : symbolToken? c = some token) :
    isBlank c = false ∧ isLiteralChar c = false ∧ token ≠ .finish := by
  rw [symbolToken?] at h
  split_ifs at h with h1 h2 h3 h4 h5 h6 <;> (cases h; subst_vars; decide)

/-- The text does not go on with a name or a number. -/
def Separate (rest : List Char) : Prop := ∀ c ∈ rest.head?, isLiteralChar c = false

theorem separate_nil : Separate [] := nofun

theorem separate_cons {c : Char} {rest : List Char} (h : isLiteralChar c = false) :
    Separate (c :: rest) := fun _ hc => Option.some.inj hc ▸ h

theorem Separate.isNameChar_eq_false {rest : List Char} (h : Separate rest) :
    ∀ c ∈ rest.head?, isNameChar c = false := fun c hc =>
  Bool.eq_false_iff.mpr fun hname =>
    Bool.eq_false_iff.mp (h c hc) (isLiteralChar_of_isNameChar hname)

/-- A run of a class of characters ends before a character that is not of the class. -/
theorem takeWhile_dropWhile_append {p : Char → Bool} {text rest : List Char}
    (htext : ∀ c ∈ text, p c) (hrest : ∀ c ∈ rest.head?, p c = false) :
    (text ++ rest).takeWhile p = text ∧ (text ++ rest).dropWhile p = rest := by
  rw [List.takeWhile_append_of_pos htext, List.dropWhile_append_of_pos htext]
  cases rest with
  | nil => exact ⟨List.append_nil text, rfl⟩
  | cons c rest =>
    have hc : ¬p c := Bool.eq_false_iff.mp (hrest c rfl)
    rw [List.takeWhile_cons_of_neg hc, List.dropWhile_cons_of_neg hc]
    exact ⟨List.append_nil text, rfl⟩

theorem PlainText.isLiteralChar {text : List Char} {d : Decimal} (h : PlainText text d) :
    ∀ c ∈ text, isLiteralChar c := by
  cases h with
  | whole hne hdigits => exact fun c hc => Cursor.isLiteralChar_of_isDigit (hdigits c hc)
  | point hwhole hwhole' hfraction hfraction' =>
    intro c hc
    rcases List.mem_append.mp hc with hc | hc
    · exact Cursor.isLiteralChar_of_isDigit (hwhole' c hc)
    rcases List.mem_cons.mp hc with rfl | hc
    · rfl
    · exact Cursor.isLiteralChar_of_isDigit (hfraction' c hc)

theorem PlainText.exists_first {text : List Char} {d : Decimal} (h : PlainText text d) :
    ∃ first tail, text = first :: tail ∧ first.isDigit := by
  cases h with
  | whole hne hdigits =>
    obtain ⟨first, tail, rfl⟩ := List.exists_cons_of_ne_nil hne
    exact ⟨first, tail, rfl, hdigits first List.mem_cons_self⟩
  | point hwhole hwhole' hfraction hfraction' =>
    obtain ⟨first, tail, rfl⟩ := List.exists_cons_of_ne_nil hwhole
    exact ⟨first, _, rfl, hwhole' first List.mem_cons_self⟩

theorem IsIdentifier.isNameChar {text : String} (h : IsIdentifier text) :
    ∀ c ∈ text.toList, isNameChar c := by
  obtain ⟨first, tail, htext, hfirst, htail⟩ := h
  rw [htext]
  exact List.forall_mem_cons.mpr ⟨Cursor.isNameChar_of_isNameStart hfirst, htail⟩

namespace Cursor

/-! ### One token -/

theorem take_number {text rest : List Char} {d : Decimal} (h : PlainText text d)
    (hrest : Separate rest) (position : Nat) :
    take ⟨text ++ rest, position⟩ =
      (.ok (.number (d.toFloat false)), ⟨rest, position + text.length⟩) := by
  obtain ⟨htake, hdrop⟩ := takeWhile_dropWhile_append h.isLiteralChar hrest
  have hvalue := readLiteral?_eq_some_iff.mpr ⟨d, h, rfl⟩
  obtain ⟨first, tail, rfl, hfirst⟩ := h.exists_first
  rw [List.cons_append] at htake hdrop ⊢
  simp only [take, if_pos hfirst, skipWhile, htake, hdrop, hvalue]

theorem not_isDigit_of_isNameStart {c : Char} (h : isNameStart c) : ¬c.isDigit := by
  simp only [isNameStart, Char.isAlpha, Char.isUpper, Char.isLower, Char.isDigit, Bool.or_eq_true,
    Bool.and_eq_true, decide_eq_true_eq, beq_iff_eq, UInt32.le_iff_toNat_le, ge_iff_le] at h ⊢
  change ((65 ≤ c.toNat ∧ c.toNat ≤ 90) ∨ (97 ≤ c.toNat ∧ c.toNat ≤ 122)) ∨ c = '_' at h
  change ¬(48 ≤ c.toNat ∧ c.toNat ≤ 57)
  rcases h with (h | h) | rfl
  · omega
  · omega
  · decide

theorem take_name {text : String} (h : IsIdentifier text) {rest : List Char}
    (hrest : ∀ c ∈ rest.head?, isNameChar c = false) (position : Nat) :
    take ⟨text.toList ++ rest, position⟩ =
      (.ok (.name text), ⟨rest, position + text.toList.length⟩) := by
  obtain ⟨htake, hdrop⟩ := takeWhile_dropWhile_append h.isNameChar hrest
  obtain ⟨first, tail, htext, hfirst, -⟩ := h
  have hname : String.ofList (first :: tail) = text := by rw [← htext, String.ofList_toList]
  rw [htext, List.cons_append] at htake hdrop ⊢
  simp only [take, if_neg (not_isDigit_of_isNameStart hfirst), if_pos hfirst, skipWhile, htake,
    hdrop, hname]

theorem take_symbol {c : Char} {token : Token} (h : symbolToken? c = some token)
    (rest : List Char) (position : Nat) :
    take ⟨c :: rest, position⟩ = (.ok token, ⟨rest, position + 1⟩) := by
  have hliteral := (of_symbolToken? h).2.1
  have hdigit : ¬c.isDigit := fun hc => by
    simpa [hliteral] using Cursor.isLiteralChar_of_isDigit hc
  have hstart : ¬isNameStart c := fun hc => by
    simpa [hliteral] using isLiteralChar_of_isNameChar (isNameChar_of_isNameStart hc)
  simp only [take, if_neg hdigit, if_neg hstart, h]

/-! ### The tokens from a cursor on -/

/-- The equation of `tokens` without what makes it terminate. -/
theorem tokens_eq (c : Cursor) :
    c.tokens = match c.next with
      | (.error fault, _) => .error fault
      | (.ok t, after) =>
        if t.token = .finish then .ok ⟨[], t.position⟩
        else after.tokens.map fun stream => { stream with tokens := t :: stream.tokens } := by
  rw [tokens]
  split
  · rename_i heq
    rw [heq]
  · rename_i t after heq
    rw [heq]
    dsimp only
    split_ifs
    · rfl
    · cases after.tokens <;> rfl

theorem skipWhile_isBlank {c : Cursor} (hblank : ∀ first ∈ c.rest.head?, isBlank first = false) :
    c.skipWhile isBlank = c := by
  obtain ⟨rest, position⟩ := c
  cases rest with
  | nil => rfl
  | cons first tail =>
    have hfirst : isBlank first = false := hblank first rfl
    simp [skipWhile, hfirst]

theorem tokens_eq_of_take {c after : Cursor} {token : Token}
    (hblank : ∀ first ∈ c.rest.head?, isBlank first = false) (htake : c.take = (.ok token, after))
    (hfinish : token ≠ .finish) :
    c.tokens = after.tokens.map fun stream =>
      { stream with tokens := ⟨token, c.position⟩ :: stream.tokens } := by
  have hnext : c.next = (.ok ⟨token, c.position⟩, after) := by
    simp only [next, skipWhile_isBlank hblank, htake]
  rw [tokens_eq, hnext]
  exact if_neg hfinish

theorem tokens_of_take {c after : Cursor} {token : Token} {stream : TokenStream}
    (hblank : ∀ first ∈ c.rest.head?, isBlank first = false) (htake : c.take = (.ok token, after))
    (hfinish : token ≠ .finish) (hafter : after.tokens = .ok stream) :
    c.tokens = .ok { stream with tokens := ⟨token, c.position⟩ :: stream.tokens } := by
  rw [tokens_eq_of_take hblank htake hfinish, hafter]
  rfl

theorem tokens_of_take_error {c : Cursor} {fault : Fault}
    (hblank : ∀ first ∈ c.rest.head?, isBlank first = false) (htake : c.take.1 = .error fault) :
    c.tokens = .error ⟨c.position, fault⟩ := by
  rcases hresult : c.take with ⟨result, after⟩
  obtain rfl : result = .error fault := by rwa [hresult] at htake
  have hnext : c.next = (.error ⟨c.position, fault⟩, after) := by
    simp only [next, skipWhile_isBlank hblank, hresult]
  rw [tokens_eq, hnext]

theorem tokens_nil (position : Nat) : tokens ⟨[], position⟩ = .ok ⟨[], position⟩ := by
  rw [tokens_eq]
  rfl

theorem tokens_blank {blank : Char} (h : isBlank blank) (rest : List Char) (position : Nat) :
    tokens ⟨blank :: rest, position⟩ = tokens ⟨rest, position + 1⟩ := by
  have hskip : skipWhile ⟨blank :: rest, position⟩ isBlank =
      skipWhile ⟨rest, position + 1⟩ isBlank := by
    simp [skipWhile, h, Nat.add_assoc, Nat.add_comm 1]
  have hnext : next ⟨blank :: rest, position⟩ = next ⟨rest, position + 1⟩ := by
    simp only [next, hskip]
  rw [tokens_eq, hnext, ← tokens_eq]

end Cursor

/-! ### Whole texts -/

/-- At the position the text is read as the tokens, before whatever text does not go on with the last
of them. -/
def Lexes (text : List Char) (position : Nat) (ts : List PlacedToken) : Prop :=
  ∀ rest stream, Separate rest → Cursor.tokens ⟨rest, position + text.length⟩ = .ok stream →
    Cursor.tokens ⟨text ++ rest, position⟩ = .ok { stream with tokens := ts ++ stream.tokens }

namespace Lexes

theorem nil (position : Nat) : Lexes [] position [] := fun _ _ _ h => h

theorem number {text : List Char} {d : Decimal} (h : PlainText text d) (position : Nat) :
    Lexes text position [⟨.number (d.toFloat false), position⟩] := by
  intro rest stream hrest hstream
  refine Cursor.tokens_of_take ?_ (Cursor.take_number h hrest position) nofun hstream
  obtain ⟨first, tail, rfl, hfirst⟩ := h.exists_first
  rintro _ ⟨⟩
  exact isBlank_of_isLiteralChar (Cursor.isLiteralChar_of_isDigit hfirst)

theorem name {text : String} (h : IsIdentifier text) (position : Nat) :
    Lexes text.toList position [⟨.name text, position⟩] := by
  intro rest stream hrest hstream
  refine Cursor.tokens_of_take ?_ (Cursor.take_name h hrest.isNameChar_eq_false position) nofun
    hstream
  obtain ⟨first, tail, htext, hfirst, -⟩ := h
  rw [htext]
  rintro _ ⟨⟩
  exact isBlank_of_isLiteralChar
    (isLiteralChar_of_isNameChar (Cursor.isNameChar_of_isNameStart hfirst))

variable {text : List Char} {position : Nat} {ts : List PlacedToken}

theorem blank {c : Char} (hc : isBlank c) (h : Lexes text (position + 1) ts) :
    Lexes (c :: text) position ts := by
  intro rest stream hrest hstream
  rw [List.cons_append, Cursor.tokens_blank hc]
  refine h rest stream hrest ?_
  rwa [Nat.add_assoc, Nat.add_comm 1, ← List.length_cons]

theorem symbol {c : Char} {token : Token} (hc : symbolToken? c = some token)
    (h : Lexes text (position + 1) ts) : Lexes (c :: text) position (⟨token, position⟩ :: ts) := by
  intro rest stream hrest hstream
  obtain ⟨hblank, -, hfinish⟩ := of_symbolToken? hc
  refine Cursor.tokens_of_take ?_ (Cursor.take_symbol hc _ position) hfinish (h rest stream hrest ?_)
  · rintro _ ⟨⟩
    exact hblank
  · rwa [Nat.add_assoc, Nat.add_comm 1, ← List.length_cons]

theorem append {us : List PlacedToken} {c : Char} {tail : List Char} (h : Lexes text position ts)
    (hc : isLiteralChar c = false) (h' : Lexes (c :: tail) (position + text.length) us) :
    Lexes (text ++ c :: tail) position (ts ++ us) := by
  intro rest stream hrest hstream
  rw [List.length_append, ← Nat.add_assoc] at hstream
  have htail := h' rest stream hrest hstream
  rw [List.append_assoc, List.append_assoc]
  exact h _ _ (separate_cons hc) htail

theorem tokenize {formula : String} (h : Lexes formula.toList 0 ts) :
    tokenize formula = .ok ⟨ts, formula.toList.length⟩ := by
  have hnil := h [] _ separate_nil (Cursor.tokens_nil _)
  rwa [List.append_nil, List.append_nil, Nat.zero_add] at hnil

end Lexes

/-! ### What was read -/

/-- The token is one that a text can be read as. -/
def Token.IsLexed : Token → Prop
  | number value => IsUnsigned value
  | name text => IsIdentifier text
  | _ => True

theorem Decimal.nearest_le_infinity (d : Decimal) :
    d.nearest .binary64 ≤ BinaryFormat.binary64.infinity := by
  rw [nearest_eq_rounded, BinaryFormat.rounded]
  split_ifs
  · exact Nat.zero_le _
  · exact Nat.min_le_left _ _

namespace Cursor

theorem isLexed_of_take {c after : Cursor} {token : Token} (h : c.take = (.ok token, after)) :
    token.IsLexed := by
  obtain ⟨rest, position⟩ := c
  rw [take] at h
  split at h
  · cases h
    trivial
  · rename_i first tail hrest
    dsimp only at hrest
    subst hrest
    split_ifs at h with hdigit hstart
    · dsimp only at h
      cases hread : readLiteral? ((first :: tail).takeWhile isLiteralChar) with
      | none =>
        rw [hread] at h
        cases h
      | some value =>
        rw [hread] at h
        cases h
        obtain ⟨d, -, rfl⟩ := readLiteral?_eq_some_iff.mp hread
        exact isUnsigned_floatOfPattern d.nearest_le_infinity
    · cases h
      refine ⟨first, tail.takeWhile isNameChar, ?_, hstart, fun c => List.mem_takeWhile_imp⟩
      rw [String.toList_ofList, List.takeWhile_cons_of_pos (isNameChar_of_isNameStart hstart)]
    · cases hsymbol : symbolToken? first with
      | none =>
        rw [hsymbol] at h
        cases h
      | some symbol =>
        rw [hsymbol] at h
        cases h
        rw [symbolToken?] at hsymbol
        split_ifs at hsymbol <;> (cases hsymbol; trivial)

theorem isLexed_of_next {c after : Cursor} {t : PlacedToken} (h : c.next = (.ok t, after)) :
    t.token.IsLexed := by
  simp only [next] at h
  split at h
  · cases h
    exact isLexed_of_take ‹_›
  · cases h

theorem isLexed_of_tokens {c : Cursor} {stream : TokenStream} (h : c.tokens = .ok stream) :
    ∀ t ∈ stream.tokens, t.token.IsLexed := by
  fun_induction tokens c generalizing stream with
  | case1 c fault after hnext => cases h
  | case2 c t after hnext hfinish =>
    cases h
    exact nofun
  | case3 c t after hnext hfinish fault hafter => cases h
  | case4 c t after hnext hfinish rest hafter ih =>
    cases h
    exact List.forall_mem_cons.mpr ⟨isLexed_of_next hnext, ih hafter⟩

end Cursor

end QuestFormula
