import QuestFormula.Json.Value

/-!
From text to a JSON value. Blanks are the space, the tab, the line feed and the carriage return;
neither a comma before a closing bracket nor text after the value is accepted, and numbers have no
leading zeros.
-/

namespace QuestFormula.Json

/-- A blank between the tokens of JSON. -/
def isSpace (c : Char) : Bool := c == ' ' || c == '\t' || c == '\n' || c == '\r'

def skipSpace (text : List Char) : List Char := text.dropWhile isSpace

/-- The rest of a text that starts with a word. -/
def afterWord? : List Char → List Char → Option (List Char)
  | [], text => some text
  | c :: word, d :: text => if c = d then afterWord? word text else none
  | _ :: _, [] => none

/-- A string up to its closing quote, and the rest. Every escape is one that JSON has, and control
characters are escaped. -/
def readString? : List Char → Option (List Char × List Char)
  | [] => none
  | '"' :: rest => some ([], rest)
  | '\\' :: 'u' :: a :: b :: c :: d :: rest => do
    let _ ← hexUnit? a b c d
    let (written, rest) ← readString? rest
    return ('\\' :: 'u' :: a :: b :: c :: d :: written, rest)
  | '\\' :: c :: rest => do
    let _ ← shortEscape? c
    let (written, rest) ← readString? rest
    return ('\\' :: c :: written, rest)
  | c :: rest => do
    if c.toNat < 0x20 ∨ c = '\\' then none
    let (written, rest) ← readString? rest
    return (c :: written, rest)

/-- One or more digits, and the rest. -/
def readDigits? (text : List Char) : Option (List Char × List Char) :=
  let digits := text.takeWhile Char.isDigit
  if digits = [] then none else some (digits, text.dropWhile Char.isDigit)

/-- The fraction of a number, which may be missing. -/
def readFraction? : List Char → Option (List Char × List Char)
  | '.' :: rest => do
    let (digits, rest) ← readDigits? rest
    return ('.' :: digits, rest)
  | rest => some ([], rest)

/-- The exponent of a number, which may be missing. -/
def readExponent? : List Char → Option (List Char × List Char)
  | c :: rest =>
    if c = 'e' ∨ c = 'E' then do
      let (sign, rest) := match rest with
        | '+' :: rest => (['+'], rest)
        | '-' :: rest => (['-'], rest)
        | rest => ([], rest)
      let (digits, rest) ← readDigits? rest
      return (c :: sign ++ digits, rest)
    else some ([], c :: rest)
  | [] => some ([], [])

def readUnsigned? (text : List Char) : Option (List Char × List Char) := do
  let (whole, rest) ← readDigits? text
  if whole.head? = some '0' ∧ whole ≠ ['0'] then none
  let (fraction, rest) ← readFraction? rest
  let (power, rest) ← readExponent? rest
  return (whole ++ fraction ++ power, rest)

def readNumber? : List Char → Option (List Char × List Char)
  | '-' :: rest => (readUnsigned? rest).map fun (written, rest) => ('-' :: written, rest)
  | rest => readUnsigned? rest

mutual

/-- A value after blanks, and the rest. The bound is on the nesting and the number of items. -/
def readValue? : Nat → List Char → Option (Json × List Char)
  | 0, _ => none
  | bound + 1, text =>
    match skipSpace text with
    | '"' :: rest => (readString? rest).map fun (written, rest) => (string written, rest)
    | '[' :: rest =>
      match skipSpace rest with
      | ']' :: rest => some (array [], rest)
      | rest => (readItems? bound rest).map fun (items, rest) => (array items, rest)
    | '{' :: rest =>
      match skipSpace rest with
      | '}' :: rest => some (object [], rest)
      | rest => (readMembers? bound rest).map fun (members, rest) => (object members, rest)
    | 't' :: rest => (afterWord? "rue".toList rest).map (bool true, ·)
    | 'f' :: rest => (afterWord? "alse".toList rest).map (bool false, ·)
    | 'n' :: rest => (afterWord? "ull".toList rest).map (null, ·)
    | rest => (readNumber? rest).map fun (written, rest) => (number written, rest)

/-- The items of an array up to its closing bracket, and the rest. -/
def readItems? : Nat → List Char → Option (List Json × List Char)
  | 0, _ => none
  | bound + 1, text =>
    match readValue? bound text with
    | none => none
    | some (item, rest) =>
      match skipSpace rest with
      | ']' :: rest => some ([item], rest)
      | ',' :: rest => (readItems? bound rest).map fun (items, rest) => (item :: items, rest)
      | _ => none

/-- The members of an object up to its closing brace, and the rest. -/
def readMembers? : Nat → List Char → Option (List (List Char × Json) × List Char)
  | 0, _ => none
  | bound + 1, text =>
    match skipSpace text with
    | '"' :: rest =>
      match readString? rest with
      | none => none
      | some (key, rest) =>
        match skipSpace rest with
        | ':' :: rest =>
          match readValue? bound rest with
          | none => none
          | some (value, rest) =>
            match skipSpace rest with
            | '}' :: rest => some ([(key, value)], rest)
            | ',' :: rest =>
              (readMembers? bound rest).map fun (members, rest) => ((key, value) :: members, rest)
            | _ => none
        | _ => none
    | _ => none

end

/-- The value that a whole text is written as. -/
def read? (text : String) : Option Json :=
  match readValue? (2 * text.length + 2) text.toList with
  | some (j, rest) => if skipSpace rest = [] then some j else none
  | none => none

end QuestFormula.Json
