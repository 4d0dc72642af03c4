/-!
JSON values. Numbers and strings are kept as they are written, and `integer?` and `text?` give what
they stand for: a number stands for an integer if it has no fraction and no exponent, and a string
stands for a text unless its escapes name half of a surrogate pair alone.
-/

namespace QuestFormula

/-- A JSON value. A string is what stands between its quotes; the members of an object keep their
order. -/
inductive Json where
  | null
  | bool (value : Bool)
  | number (written : List Char)
  | string (written : List Char)
  | array (items : List Json)
  | object (members : List (List Char × Json))

namespace Json

def hexDigit? (c : Char) : Option Nat :=
  if c.isDigit then some (c.toNat - 48)
  else if 'a' ≤ c ∧ c ≤ 'f' then some (c.toNat - 87)
  else if 'A' ≤ c ∧ c ≤ 'F' then some (c.toNat - 55)
  else none

def hexUnit? (a b c d : Char) : Option Nat := do
  return (((← hexDigit? a) * 16 + (← hexDigit? b)) * 16 + (← hexDigit? c)) * 16 + (← hexDigit? d)

/-- The character that a letter stands for after a backslash. -/
def shortEscape? (c : Char) : Option Char :=
  if c = '"' ∨ c = '\\' ∨ c = '/' then some c
  else if c = 'b' then some '\x08'
  else if c = 'f' then some '\x0c'
  else if c = 'n' then some '\n'
  else if c = 'r' then some '\r'
  else if c = 't' then some '\t'
  else none

/-- The code units that a written string names: the code point of a character, or the number in an
escape. -/
def units? : List Char → Option (List Nat)
  | [] => some []
  | '\\' :: 'u' :: a :: b :: c :: d :: rest => do
    return (← hexUnit? a b c d) :: (← units? rest)
  | '\\' :: c :: rest => do return (← shortEscape? c).toNat :: (← units? rest)
  | c :: rest => do return c.toNat :: (← units? rest)

/-- The characters of code units, where a high surrogate and the low surrogate after it are one
character. -/
def joinUnits? : List Nat → Option (List Char)
  | [] => some []
  | unit :: rest =>
    if 0xd800 ≤ unit ∧ unit < 0xdc00 then
      match rest with
      | low :: rest =>
        if 0xdc00 ≤ low ∧ low < 0xe000 then
          (joinUnits? rest).map (Char.ofNat (0x10000 + (unit - 0xd800) * 0x400 + (low - 0xdc00)) :: ·)
        else none
      | [] => none
    else if 0xdc00 ≤ unit ∧ unit < 0xe000 then none
    else (joinUnits? rest).map (Char.ofNat unit :: ·)

/-- The text that a written string stands for. -/
def text? (written : List Char) : Option String := do
  return String.ofList (← joinUnits? (← units? written))

/-- The integer that a written number stands for. Negative zero is no integer. -/
def integer? (written : List Char) : Option Int :=
  match written with
  | '-' :: digits =>
    if digits ≠ ['0'] ∧ digits.all Char.isDigit then some (-Nat.ofDigitChars 10 digits 0) else none
  | digits => if digits.all Char.isDigit then some (Nat.ofDigitChars 10 digits 0) else none

/-- A character of a text as it is written in a string: quotes, backslashes and control characters
escaped, all else as itself. -/
def escapeChar (c : Char) : List Char :=
  if c = '"' ∨ c = '\\' then ['\\', c]
  else if c = '\x08' then ['\\', 'b']
  else if c = '\t' then ['\\', 't']
  else if c = '\n' then ['\\', 'n']
  else if c = '\x0c' then ['\\', 'f']
  else if c = '\r' then ['\\', 'r']
  else if c.toNat < 0x20 then
    ['\\', 'u', '0', '0', Nat.digitChar (c.toNat / 16), Nat.digitChar (c.toNat % 16)]
  else [c]

def ofText (text : String) : Json := string (text.toList.flatMap escapeChar)

def ofInt (n : Int) : Json :=
  number (if n < 0 then '-' :: Nat.toDigits 10 n.natAbs else Nat.toDigits 10 n.natAbs)

def ofNat (n : Nat) : Json := number (Nat.toDigits 10 n)

/-- An object with its members by name. -/
def record (members : List (String × Json)) : Json :=
  object (members.map fun member => (member.1.toList.flatMap escapeChar, member.2))

end Json

end QuestFormula
