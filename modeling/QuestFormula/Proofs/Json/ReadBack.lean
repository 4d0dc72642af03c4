import QuestFormula.Json.Printer
import QuestFormula.Json.Reader
import QuestFormula.Proofs.Formula.Lexer

/-! JSON values read back from what they are written as.  What is read is the longest text that is one
token, so a value comes back before any text that cannot continue a number, and the values between
brackets come back one after another.  `IsWritten` are the values that this library writes: numbers
that are integers, and strings in which nothing has to be escaped.  The forms that they are written in
are `arrayText` and `recordText`. -/

namespace QuestFormula.Json

/-- The text is over or goes on with what stands after a value, so it continues no number. -/
def Ends (rest : List Char) : Prop := ∀ c ∈ rest.head?, c = ',' ∨ c = ']' ∨ c = '}'

theorem ends_nil : Ends [] := by simp [Ends]

theorem ends_cons {c : Char} (h : c = ',' ∨ c = ']' ∨ c = '}') (rest : List Char) :
    Ends (c :: rest) := by simpa [Ends] using h

/-- Every character stands in a string for itself. -/
def IsPlain (written : List Char) : Prop := ∀ c ∈ written, c ≠ '"' ∧ c ≠ '\\' ∧ 0x20 ≤ c.toNat

instance (written : List Char) : Decidable (IsPlain written) :=
  List.decidableBAll _ written

/-- A name that stands for itself. -/
def IsPlainName (name : String) : Prop := IsPlain name.toList

instance (name : String) : Decidable (IsPlainName name) :=
  inferInstanceAs (Decidable (IsPlain name.toList))

/-- The values that are written by name, as items, as integers and as plain strings. -/
inductive IsWritten : Json → Prop where
  | null : IsWritten null
  | bool (value : Bool) : IsWritten (bool value)
  | integer (n : ℤ) : IsWritten (ofInt n)
  | string {written : List Char} (h : IsPlain written) : IsWritten (string written)
  | array {items : List Json} (h : ∀ item ∈ items, IsWritten item) : IsWritten (array items)
  | object {members : List (List Char × Json)} (hkeys : ∀ member ∈ members, IsPlain member.1)
    (hvalues : ∀ member ∈ members, IsWritten member.2) : IsWritten (object members)

/-! ### Integers -/

/-- No number but zero is written with a zero in front. -/
theorem head?_toDigits {n : ℕ} (h : n ≠ 0) : (Nat.toDigits 10 n).head? ≠ some '0' := by
  induction n using Nat.strongRecOn with
  | ind n ih =>
    by_cases hlt : n < 10
    · rw [Nat.toDigits_of_lt_base hlt]
      interval_cases n
      · exact absurd rfl h
      all_goals decide
    · rw [Nat.toDigits_of_base_le (by decide) (by omega), List.head?_append]
      have hrest := ih (n / 10) (by omega) (by omega)
      obtain ⟨c, digits, hdigits⟩ :=
        List.exists_cons_of_ne_nil (Nat.toDigits_ne_nil (n := n / 10) (b := 10))
      rw [hdigits] at hrest ⊢
      exact hrest

theorem exists_toDigits (n : ℕ) : ∃ first digits, Nat.toDigits 10 n = first :: digits ∧
    first.isDigit ∧ (first = '0' → n = 0) := by
  obtain ⟨first, digits, h⟩ :=
    List.exists_cons_of_ne_nil (Nat.toDigits_ne_nil (n := n) (b := 10))
  refine ⟨first, digits, h, ?_, fun hzero => ?_⟩
  · exact Nat.isDigit_of_mem_toDigits (by decide) le_rfl (h ▸ List.mem_cons_self)
  · by_contra hn
    exact head?_toDigits hn (by rw [h, hzero]; rfl)

theorem isDigit_toDigits (n : ℕ) : ∀ c ∈ Nat.toDigits 10 n, c.isDigit :=
  fun _ => Nat.isDigit_of_mem_toDigits (by decide) le_rfl

theorem Ends.isDigit_head? {rest : List Char} (h : Ends rest) :
    ∀ c ∈ rest.head?, c.isDigit = false := by
  intro c hc
  rcases h c hc with rfl | rfl | rfl <;> rfl

theorem readDigits?_append {digits rest : List Char} (hne : digits ≠ [])
    (hdigits : ∀ c ∈ digits, c.isDigit) (hrest : ∀ c ∈ rest.head?, c.isDigit = false) :
    readDigits? (digits ++ rest) = some (digits, rest) := by
  obtain ⟨htake, hdrop⟩ := takeWhile_dropWhile_append hdigits hrest
  rw [readDigits?, htake, hdrop, if_neg hne]

theorem Ends.readFraction? {rest : List Char} (h : Ends rest) :
    readFraction? rest = some ([], rest) := by
  match rest with
  | [] => rfl
  | c :: rest =>
    rcases h c rfl with rfl | rfl | rfl <;> rfl

theorem Ends.readExponent? {rest : List Char} (h : Ends rest) :
    readExponent? rest = some ([], rest) := by
  match rest with
  | [] => rfl
  | c :: rest =>
    rcases h c rfl with rfl | rfl | rfl <;> rfl

theorem readUnsigned?_toDigits (n : ℕ) {rest : List Char} (h : Ends rest) :
    readUnsigned? (Nat.toDigits 10 n ++ rest) = some (Nat.toDigits 10 n, rest) := by
  have hzero : ¬((Nat.toDigits 10 n).head? = some '0' ∧ Nat.toDigits 10 n ≠ ['0']) := by
    rintro ⟨hhead, hne⟩
    by_cases hn : n = 0
    · exact hne (hn ▸ Nat.toDigits_zero 10)
    · exact head?_toDigits hn hhead
  rw [readUnsigned?, readDigits?_append Nat.toDigits_ne_nil (isDigit_toDigits n) h.isDigit_head?]
  simp [hzero, h.readFraction?, h.readExponent?]

/-- An integer as it is written. -/
def integerText (n : ℤ) : List Char :=
  if n < 0 then '-' :: Nat.toDigits 10 n.natAbs else Nat.toDigits 10 n.natAbs

theorem ofInt_eq (n : ℤ) : ofInt n = number (integerText n) := rfl

theorem exists_integerText (n : ℤ) : ∃ first tail, integerText n = first :: tail ∧
    (first = '-' ∨ first.isDigit) := by
  rw [integerText]
  split
  · exact ⟨_, _, rfl, .inl rfl⟩
  · obtain ⟨first, digits, h, hdigit, -⟩ := exists_toDigits n.natAbs
    exact ⟨first, digits, h, .inr hdigit⟩

theorem readNumber?_of_isDigit {first : Char} (h : first.isDigit) (tail : List Char) :
    readNumber? (first :: tail) = readUnsigned? (first :: tail) := by
  rw [readNumber?]
  rintro rest hrest
  cases hrest
  cases h

theorem readNumber?_integerText (n : ℤ) {rest : List Char} (h : Ends rest) :
    readNumber? (integerText n ++ rest) = some (integerText n, rest) := by
  have hdigits := readUnsigned?_toDigits n.natAbs h
  rw [integerText]
  split
  · rw [List.cons_append, readNumber?, hdigits]
    rfl
  · obtain ⟨first, digits, htext, hdigit, -⟩ := exists_toDigits n.natAbs
    rw [htext] at hdigits ⊢
    rw [List.cons_append, readNumber?_of_isDigit hdigit]
    exact hdigits

/-- An integer stands for itself. -/
theorem integer?_integerText (n : ℤ) : integer? (integerText n) = some n := by
  have hall : (Nat.toDigits 10 n.natAbs).all Char.isDigit = true :=
    List.all_eq_true.mpr (isDigit_toDigits n.natAbs)
  have hvalue : Nat.ofDigitChars 10 (Nat.toDigits 10 n.natAbs) 0 = n.natAbs :=
    Nat.ofDigitChars_ten_toDigits
  rw [integerText]
  split
  · rename_i hneg
    have hzero : Nat.toDigits 10 n.natAbs ≠ ['0'] := fun hzero =>
      head?_toDigits (by omega) (congrArg List.head? hzero)
    rw [integer?, if_pos ⟨hzero, hall⟩, hvalue]
    exact congrArg some (by omega)
  · obtain ⟨first, digits, htext, hdigit, -⟩ := exists_toDigits n.natAbs
    rw [htext] at hall hvalue ⊢
    rw [integer?, if_pos hall, hvalue]
    · exact congrArg some (by omega)
    · rintro digits' hminus
      cases hminus
      cases hdigit

/-! ### Strings -/

theorem readString?_of_isPlain {written : List Char} (h : IsPlain written) (rest : List Char) :
    readString? (written ++ '"' :: rest) = some (written, rest) := by
  induction written with
  | nil => rfl
  | cons c written ih =>
    obtain ⟨hquote, hescape, hcontrol⟩ := h c List.mem_cons_self
    have hrest := ih fun c hc => h c (List.mem_cons_of_mem _ hc)
    rw [List.cons_append, readString?, hrest]
    · simp [Nat.not_lt.mpr hcontrol, hescape]
    · exact hquote
    · rintro - - - - - hc -
      exact hescape hc
    · rintro - - hc -
      exact hescape hc

/-- Nothing in a plain string is escaped. -/
theorem flatMap_escapeChar_of_isPlain {written : List Char} (h : IsPlain written) :
    written.flatMap escapeChar = written := by
  induction written with
  | nil => rfl
  | cons c written ih =>
    obtain ⟨hquote, hescape, hcontrol⟩ := h c List.mem_cons_self
    have hother {d : Char} (hd : d.toNat < 0x20) : c ≠ d := by
      rintro rfl
      omega
    have hchar : escapeChar c = [c] := by
      simp only [escapeChar, hquote, hescape, hother (show '\x08'.toNat < 0x20 by decide),
        hother (show '\t'.toNat < 0x20 by decide), hother (show '\n'.toNat < 0x20 by decide),
        hother (show '\x0c'.toNat < 0x20 by decide), hother (show '\r'.toNat < 0x20 by decide),
        Nat.not_lt.mpr hcontrol, or_self, if_false]
    rw [List.flatMap_cons, hchar, ih fun c hc => h c (List.mem_cons_of_mem _ hc)]
    rfl

theorem units?_of_isPlain {written : List Char} (h : IsPlain written) :
    units? written = some (written.map Char.toNat) := by
  induction written with
  | nil => rfl
  | cons c written ih =>
    obtain ⟨-, hescape, -⟩ := h c List.mem_cons_self
    rw [units?, ih fun c hc => h c (List.mem_cons_of_mem _ hc)]
    · rfl
    · rintro - - - - - hc -
      exact hescape hc
    · rintro - - hc -
      exact hescape hc

/-- No character is half of a surrogate pair. -/
theorem joinUnits?_map_toNat (text : List Char) : joinUnits? (text.map Char.toNat) = some text := by
  induction text with
  | nil => rfl
  | cons c text ih =>
    have hvalid : c.toNat < 0xd800 ∨ 0xdfff < c.toNat ∧ c.toNat < 0x110000 := c.valid
    rw [List.map_cons, joinUnits?.eq_def]
    simp only
    rw [if_neg (by omega), if_neg (by omega), ih, Option.map_some, Char.ofNat_toNat]

/-- A plain string stands for itself. -/
theorem text?_of_isPlain {written : List Char} (h : IsPlain written) :
    text? written = some (String.ofList written) := by
  rw [text?, units?_of_isPlain h]
  simp [joinUnits?_map_toNat]

/-! ### Values -/

theorem skipSpace_cons {c : Char} (h : isSpace c = false) (tail : List Char) :
    skipSpace (c :: tail) = c :: tail := by
  simp [skipSpace, h]

theorem isSpace_of_first {first : Char} (h : first = '-' ∨ first.isDigit) :
    isSpace first = false ∧ first ≠ ']' := by
  constructor
  · simp only [isSpace, Bool.or_eq_false_iff, beq_eq_false_iff_ne]
    refine ⟨⟨⟨?_, ?_⟩, ?_⟩, ?_⟩
    all_goals
      rintro rfl
      exact absurd h (by decide)
  · rintro rfl
    exact absurd h (by decide)

/-- What is written begins neither with a blank nor with the end of an array. -/
theorem IsWritten.exists_first {j : Json} (h : IsWritten j) :
    ∃ first tail, j.compact = first :: tail ∧ isSpace first = false ∧ first ≠ ']' := by
  cases h with
  | null => exact ⟨'n', _, rfl, rfl, by decide⟩
  | bool value =>
    cases value with
    | true => exact ⟨'t', _, rfl, rfl, by decide⟩
    | false => exact ⟨'f', _, rfl, rfl, by decide⟩
  | integer n =>
    obtain ⟨first, tail, htext, hfirst⟩ := exists_integerText n
    exact ⟨first, tail, htext, isSpace_of_first hfirst⟩
  | string h => exact ⟨'"', _, rfl, rfl, by decide⟩
  | array h => exact ⟨'[', _, rfl, rfl, by decide⟩
  | object hkeys hvalues => exact ⟨'{', _, rfl, rfl, by decide⟩

/-- The value is read back from its text before any text that may stand after it. -/
def Reads (j : Json) : Prop := ∀ bound rest, 2 * j.compact.length ≤ bound → Ends rest →
  readValue? bound (j.compact ++ rest) = some (j, rest)

/-- A value has a text, so one step of the bound is there to read it. -/
theorem reads_of_succ {j : Json} (hne : j.compact ≠ [])
    (h : ∀ bound rest, 2 * j.compact.length ≤ bound + 1 → Ends rest →
      readValue? (bound + 1) (j.compact ++ rest) = some (j, rest)) : Reads j := by
  intro bound rest hbound hrest
  have hpos := List.length_pos_iff.mpr hne
  obtain ⟨bound, rfl⟩ := Nat.exists_eq_add_one_of_ne_zero (show bound ≠ 0 by omega)
  exact h bound rest hbound hrest

theorem reads_ofInt (n : ℤ) : Reads (ofInt n) := by
  obtain ⟨first, tail, htext, hfirst⟩ := exists_integerText n
  have hcompact : (ofInt n).compact = first :: tail := htext
  refine reads_of_succ (hcompact ▸ List.cons_ne_nil _ _) fun bound rest _ hrest => ?_
  have hnumber := readNumber?_integerText n hrest
  rw [htext, List.cons_append] at hnumber
  rw [hcompact, List.cons_append, readValue?, skipSpace_cons (isSpace_of_first hfirst).1]
  -- The first character is that of no other kind of value.
  split
  case h_7 => rw [hnumber, ofInt_eq, htext]; rfl
  all_goals
    rename_i heq
    cases heq
    exact absurd hfirst (by decide)

/-- Items that are read back one by one are read back between commas. -/
theorem readItems?_compactItems {items : List Json} (hne : items ≠ [])
    (h : ∀ item ∈ items, Reads item) {bound : ℕ} (hbound : 2 * (compactItems items).length < bound)
    (rest : List Char) :
    readItems? bound (compactItems items ++ ']' :: rest) = some (items, rest) := by
  induction items generalizing bound with
  | nil => exact absurd rfl hne
  | cons item items ih =>
    obtain ⟨bound, rfl⟩ := Nat.exists_eq_add_one_of_ne_zero (show bound ≠ 0 by omega)
    have hitem := h item List.mem_cons_self
    cases items with
    | nil =>
      rw [compactItems] at hbound ⊢
      rw [readItems?, hitem bound _ (by omega) (ends_cons (by decide) _)]
      rfl
    | cons second items =>
      rw [compactItems.eq_3 _ _ (by simp)] at hbound ⊢
      rw [List.length_append, List.length_cons] at hbound
      have hlength : 2 * (compactItems (second :: items)).length < bound := by omega
      have hrest := ih (List.cons_ne_nil _ _) (fun item hmem => h item (List.mem_cons_of_mem _ hmem))
        hlength
      rw [List.append_assoc, List.cons_append, readItems?,
        hitem bound _ (by omega) (ends_cons (by decide) _)]
      simp only [skipSpace_cons (show isSpace ',' = false by decide), hrest]
      rfl

/-- Members that are read back one by one are read back between commas. -/
theorem readMembers?_compactMembers {members : List (List Char × Json)} (hne : members ≠ [])
    (hkeys : ∀ member ∈ members, IsPlain member.1) (h : ∀ member ∈ members, Reads member.2)
    {bound : ℕ} (hbound : 2 * (compactMembers members).length < bound) (rest : List Char) :
    readMembers? bound (compactMembers members ++ '}' :: rest) = some (members, rest) := by
  induction members generalizing bound with
  | nil => exact absurd rfl hne
  | cons member members ih =>
    obtain ⟨key, value⟩ := member
    obtain ⟨bound, rfl⟩ := Nat.exists_eq_add_one_of_ne_zero (show bound ≠ 0 by omega)
    have hkey : IsPlain key := hkeys _ List.mem_cons_self
    have hvalue : Reads value := h _ List.mem_cons_self
    cases members with
    | nil =>
      rw [compactMembers] at hbound ⊢
      simp only [quotedText, List.length_append, List.length_cons, List.cons_append,
        List.append_assoc, List.nil_append] at hbound ⊢
      rw [readMembers?, skipSpace_cons (by decide)]
      simp only [readString?_of_isPlain hkey, skipSpace_cons (show isSpace ':' = false by decide),
        hvalue bound ('}' :: rest) (by omega) (ends_cons (by decide) _)]
      rfl
    | cons second members =>
      rw [compactMembers.eq_3 _ _ _ (by simp)] at hbound ⊢
      simp only [quotedText, List.length_append, List.length_cons, List.cons_append,
        List.append_assoc, List.nil_append] at hbound ⊢
      have hlength : 2 * (compactMembers (second :: members)).length < bound := by omega
      have hrest := ih (List.cons_ne_nil _ _)
        (fun member hmem => hkeys member (List.mem_cons_of_mem _ hmem))
        (fun member hmem => h member (List.mem_cons_of_mem _ hmem)) hlength
      rw [readMembers?, skipSpace_cons (by decide)]
      simp only [readString?_of_isPlain hkey, skipSpace_cons (show isSpace ':' = false by decide),
        hvalue bound _ (by omega) (ends_cons (c := ',') (by decide) _),
        skipSpace_cons (show isSpace ',' = false by decide), hrest]
      rfl

theorem exists_first_compactItems {item : Json} (h : IsWritten item) (items : List Json) :
    ∃ first tail, compactItems (item :: items) = first :: tail ∧ isSpace first = false ∧
      first ≠ ']' := by
  obtain ⟨first, tail, htext, hfirst⟩ := h.exists_first
  cases items with
  | nil => exact ⟨first, tail, htext, hfirst⟩
  | cons second items =>
    rw [compactItems.eq_3 _ _ (by simp), htext]
    exact ⟨first, _, rfl, hfirst⟩

theorem exists_first_compactMembers (member : List Char × Json)
    (members : List (List Char × Json)) :
    ∃ tail, compactMembers (member :: members) = '"' :: tail := by
  cases members with
  | nil => exact ⟨_, rfl⟩
  | cons second members => exact ⟨_, rfl⟩

theorem reads_array {items : List Json} (hwritten : ∀ item ∈ items, IsWritten item)
    (h : ∀ item ∈ items, Reads item) : Reads (array items) := by
  refine reads_of_succ (by simp [compact]) fun bound rest hbound _ => ?_
  rw [compact, List.length_append, List.length_cons, List.length_singleton] at hbound
  rw [compact, List.append_assoc, List.cons_append, List.singleton_append, readValue?,
    skipSpace_cons (by decide)]
  cases items with
  | nil => rfl
  | cons item items =>
    have hlength : 2 * (compactItems (item :: items)).length < bound := by omega
    have hitems := readItems?_compactItems (List.cons_ne_nil _ _) h hlength rest
    obtain ⟨first, tail, htext, hblank, hclose⟩ :=
      exists_first_compactItems (hwritten item List.mem_cons_self) items
    rw [htext, List.cons_append] at hitems ⊢
    simp only [skipSpace_cons hblank]
    split
    · rename_i heq
      exact absurd (List.cons.inj heq).1 hclose
    · rw [hitems]
      rfl

theorem reads_object {members : List (List Char × Json)}
    (hkeys : ∀ member ∈ members, IsPlain member.1) (h : ∀ member ∈ members, Reads member.2) :
    Reads (object members) := by
  refine reads_of_succ (by simp [compact]) fun bound rest hbound _ => ?_
  rw [compact, List.length_append, List.length_cons, List.length_singleton] at hbound
  rw [compact, List.append_assoc, List.cons_append, List.singleton_append, readValue?,
    skipSpace_cons (by decide)]
  cases members with
  | nil => rfl
  | cons member members =>
    have hlength : 2 * (compactMembers (member :: members)).length < bound := by omega
    have hmembers := readMembers?_compactMembers (List.cons_ne_nil _ _) hkeys h hlength rest
    obtain ⟨tail, htext⟩ := exists_first_compactMembers member members
    rw [htext, List.cons_append] at hmembers ⊢
    simp only [skipSpace_cons (show isSpace '"' = false by decide)]
    show Option.map _ (readMembers? bound _) = _
    rw [hmembers]
    rfl

/-- What is written is read back before any text that may stand after it. -/
theorem IsWritten.reads {j : Json} (h : IsWritten j) : Reads j := by
  induction h with
  | integer n => exact reads_ofInt n
  | array h ih => exact reads_array h ih
  | object hkeys hvalues ih => exact reads_object hkeys ih
  | null => exact reads_of_succ (by simp [compact]) fun bound rest _ _ => rfl
  | bool value =>
    cases value with
    | true => exact reads_of_succ (by simp [compact, boolText]) fun bound rest _ _ => rfl
    | false => exact reads_of_succ (by simp [compact, boolText]) fun bound rest _ _ => rfl
  | string h =>
    refine reads_of_succ (by simp [compact, quotedText]) fun bound rest _ _ => ?_
    rw [compact, quotedText, List.append_assoc, List.cons_append, List.singleton_append, readValue?,
      skipSpace_cons (by decide)]
    simp only [readString?_of_isPlain h]
    rfl

/-- What is written is read back. -/
theorem IsWritten.read?_compactString {j : Json} (h : IsWritten j) :
    read? j.compactString = some j := by
  have hread := h.reads (2 * j.compactString.length + 2) []
    (by rw [compactString, String.length_ofList]; omega) ends_nil
  rw [List.append_nil] at hread
  rw [read?, compactString, String.toList_ofList, ← compactString, hread]
  rfl

/-! ### Written forms -/

/-- Items between brackets. -/
def arrayText (items : List String) : String := "[" ++ ",".intercalate items ++ "]"

/-- Members between braces, each a name in quotes and a value. -/
def recordText (members : List (String × String)) : String :=
  "\x7b" ++ ",".intercalate (members.map fun (name, value) => "\"" ++ name ++ "\":" ++ value) ++
    "\x7d"

theorem compactString_ofInt (n : ℤ) : (ofInt n).compactString = toString n := by
  rw [compactString, ofInt_eq, compact, String.ofList_eq]
  cases n with
  | ofNat n =>
    rw [integerText, if_neg (by simp)]
    show _ = (Nat.repr n).toList
    simp only [Nat.repr, String.toList_ofList]
    rfl
  | negSucc n =>
    rw [integerText, if_pos (Int.negSucc_lt_zero n)]
    show _ = ("-" ++ Nat.repr (n + 1)).toList
    simp only [Nat.repr, String.toList_append, String.toList_ofList, Int.natAbs_negSucc]
    rfl

theorem compactItems_eq (items : List Json) :
    compactItems items = (",".intercalate (items.map compactString)).toList := by
  rw [String.toList_intercalate]
  induction items with
  | nil => rfl
  | cons item items ih =>
    cases items with
    | nil => simp [compactItems, compactString]
    | cons second items =>
      rw [compactItems.eq_3 _ _ (by simp), ih]
      simp [compactString]

theorem compactString_array (items : List Json) :
    (array items).compactString = arrayText (items.map compactString) := by
  rw [compactString, compact, compactItems_eq, arrayText, String.ofList_eq]
  simp

theorem compactMembers_eq {members : List (String × Json)}
    (h : ∀ member ∈ members, IsPlainName member.1) :
    compactMembers (members.map fun member => (member.1.toList.flatMap escapeChar, member.2)) =
      (",".intercalate
        (members.map fun (name, value) => "\"" ++ name ++ "\":" ++ value.compactString)).toList := by
  rw [String.toList_intercalate]
  induction members with
  | nil => rfl
  | cons member members ih =>
    have hrest := ih fun member hmem => h member (List.mem_cons_of_mem _ hmem)
    have hname := flatMap_escapeChar_of_isPlain (h member List.mem_cons_self)
    cases members with
    | nil =>
      rw [List.map_singleton, hname]
      simp [compactMembers, quotedText, compactString]
    | cons second members =>
      rw [List.map_cons, compactMembers.eq_3 _ _ _ (by simp), hrest, hname]
      simp [quotedText, compactString]

theorem compactString_record {members : List (String × Json)}
    (h : ∀ member ∈ members, IsPlainName member.1) :
    (record members).compactString =
      recordText (members.map fun (name, value) => (name, value.compactString)) := by
  rw [compactString, record, compact, compactMembers_eq h, recordText, List.map_map,
    String.ofList_eq, String.toList_append, String.toList_append]
  rfl

end QuestFormula.Json
