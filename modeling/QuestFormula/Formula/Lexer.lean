import QuestFormula.Formula.Fault
import QuestFormula.Text.Blank

/-!
From the text of a formula to its tokens. Blanks separate tokens and a token is as long as it can
be: a name runs over letters, digits and underscores, and what begins with a digit runs over points
too and then has to be a plain literal. A cursor can be advanced past a malformed literal, but not
past a character that begins no token.
-/

namespace QuestFormula

/-- A letter of the names in formulas: an ASCII letter or an underscore. -/
def isNameStart (c : Char) : Bool := c.isAlpha || c == '_'

/-- A character of the names in formulas after the first. -/
def isNameChar (c : Char) : Bool := c.isAlphanum || c == '_'

/-- A character of a run that begins with a digit. -/
def isLiteralChar (c : Char) : Bool := isNameChar c || c == '.'

/-- The token that a character is by itself. -/
def symbolToken? (c : Char) : Option Token :=
  if c = '+' then some (.operator .add)
  else if c = '-' then some (.operator .sub)
  else if c = '*' then some (.operator .mul)
  else if c = '/' then some (.operator .div)
  else if c = '(' then some .openParen
  else if c = ')' then some .closeParen
  else none

/-- A place in a formula: the text from there on and the number of characters before it. -/
structure Cursor where
  rest : List Char
  position : Nat
deriving DecidableEq

namespace Cursor

def start (formula : String) : Cursor := ⟨formula.toList, 0⟩

/-- The cursor after the characters that satisfy `p`. -/
def skipWhile (c : Cursor) (p : Char → Bool) : Cursor :=
  ⟨c.rest.dropWhile p, c.position + (c.rest.takeWhile p).length⟩

/-- The next token or fault from a cursor that stands at no blank, and the cursor after it. -/
def take (c : Cursor) : Except Fault Token × Cursor :=
  match c.rest with
  | [] => (.ok .finish, c)
  | first :: tail =>
    if first.isDigit then
      let text := c.rest.takeWhile isLiteralChar
      let result := match readLiteral? text with
        | some value => .ok (.number value)
        | none => .error (.malformedNumber (String.ofList text))
      (result, c.skipWhile isLiteralChar)
    else if isNameStart first then
      (.ok (.name (String.ofList (c.rest.takeWhile isNameChar))), c.skipWhile isNameChar)
    else match symbolToken? first with
      | some token => (.ok token, ⟨tail, c.position + 1⟩)
      | none => (.error (.unexpectedCharacter first), c)

/-- The next token or fault with its place, and the cursor after it. -/
def next (c : Cursor) : Except PlacedFault PlacedToken × Cursor :=
  let start := c.skipWhile isBlank
  match start.take with
  | (.ok token, after) => (.ok ⟨token, start.position⟩, after)
  | (.error fault, after) => (.error ⟨start.position, fault⟩, after)

/-- The results of `count` calls of `next`, going on after faults and at the end. -/
def steps : Nat → Cursor → List (Except PlacedFault PlacedToken)
  | 0, _ => []
  | count + 1, c => c.next.1 :: steps count c.next.2

theorem length_skipWhile_le (c : Cursor) (p : Char → Bool) :
    (c.skipWhile p).rest.length ≤ c.rest.length :=
  (List.dropWhile_suffix p).length_le

/-- A run that begins with a character of its class is not empty. -/
theorem length_skipWhile_lt {c : Cursor} {p : Char → Bool} {first : Char} {tail : List Char}
    (h : c.rest = first :: tail) (hp : p first = true) :
    (c.skipWhile p).rest.length < c.rest.length := by
  have := (List.dropWhile_suffix p (l := tail)).length_le
  simp only [skipWhile, h, List.dropWhile_cons, hp, if_true, List.length_cons]
  omega

theorem isNameChar_of_isNameStart {c : Char} (h : isNameStart c = true) : isNameChar c = true := by
  simp only [isNameStart, isNameChar, Char.isAlphanum, Bool.or_eq_true] at h ⊢
  exact h.imp_left .inl

theorem isLiteralChar_of_isDigit {c : Char} (h : c.isDigit = true) : isLiteralChar c = true := by
  simp [isLiteralChar, isNameChar, Char.isAlphanum, h]

/-- Every token but the end takes at least one character. -/
theorem length_take_lt {c after : Cursor} {token : Token} (h : c.take = (.ok token, after))
    (hf : token ≠ .finish) : after.rest.length < c.rest.length := by
  unfold take at h
  split at h
  · simp_all
  · rename_i first tail hr
    split at h
    · simp only [Prod.mk.injEq] at h
      exact h.2 ▸ length_skipWhile_lt hr (isLiteralChar_of_isDigit ‹_›)
    · split at h
      · simp only [Prod.mk.injEq] at h
        exact h.2 ▸ length_skipWhile_lt hr (isNameChar_of_isNameStart ‹_›)
      · split at h
        · simp only [Prod.mk.injEq] at h
          rw [← h.2, hr]
          simp
        · simp at h

theorem length_next_lt {c after : Cursor} {t : PlacedToken} (h : c.next = (.ok t, after))
    (hf : t.token ≠ .finish) : after.rest.length < c.rest.length := by
  simp only [next] at h
  split at h
  · rename_i token after' ht
    simp only [Prod.mk.injEq, Except.ok.injEq] at h
    obtain ⟨rfl, rfl⟩ := h
    exact Nat.lt_of_lt_of_le (length_take_lt ht hf) (c.length_skipWhile_le isBlank)
  · simp at h

end Cursor

/-- The tokens of a formula, and the number of its characters. -/
structure TokenStream where
  tokens : List PlacedToken
  length : Nat

/-- The tokens of a stream with the end of the formula as the last one. -/
def TokenStream.toList (stream : TokenStream) : List PlacedToken :=
  stream.tokens ++ [⟨.finish, stream.length⟩]

/-- The tokens from a cursor on, or the first fault. -/
def Cursor.tokens (c : Cursor) : Except PlacedFault TokenStream :=
  match _h : c.next with
  | (.error fault, _) => .error fault
  | (.ok t, after) =>
    if _hf : t.token = .finish then .ok ⟨[], t.position⟩
    else match after.tokens with
      | .error fault => .error fault
      | .ok stream => .ok { stream with tokens := t :: stream.tokens }
termination_by c.rest.length
decreasing_by exact Cursor.length_next_lt ‹_› ‹_›

/-- The tokens of a formula, or the first fault in it. -/
def tokenize (formula : String) : Except PlacedFault TokenStream := (Cursor.start formula).tokens

end QuestFormula
