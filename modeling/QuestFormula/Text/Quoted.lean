import QuestFormula.Text.Printable

/-!
Quoted text: a string between double quotes, with a backslash before quotes and backslashes, short
forms for common controls, and the code point in braces for every other character that is not shown
as itself.
-/

namespace QuestFormula

/-- A character between quotes. -/
def quotedChar (c : Char) : List Char :=
  if c = '"' ∨ c = '\\' then ['\\', c]
  else if c = '\n' then ['\\', 'n']
  else if c = '\r' then ['\\', 'r']
  else if c = '\t' then ['\\', 't']
  else if c = '\x00' then ['\\', '0']
  else if isPrintable c then [c]
  else "\\u\x7b".toList ++ Nat.toDigits 16 c.toNat ++ ['}']

/-- A string between quotes. -/
def quoted (text : String) : String :=
  String.ofList ('"' :: text.toList.flatMap quotedChar ++ ['"'])

/-- An optional string: `None`, or `Some` around the quoted string. -/
def quotedOption : Option String → String
  | none => "None"
  | some text => s!"Some({quoted text})"

end QuestFormula
