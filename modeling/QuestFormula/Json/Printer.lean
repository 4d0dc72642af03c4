import QuestFormula.Json.Value

/-!
JSON values written out, either without any blanks or with one item to a line, indented by two
spaces for each level.
-/

namespace QuestFormula.Json

/-- The words of the values that have only one form. -/
def boolText (value : Bool) : List Char := if value then "true".toList else "false".toList

/-- A written string between its quotes. -/
def quotedText (written : List Char) : List Char := '"' :: written ++ ['"']

mutual

def compact : Json → List Char
  | null => "null".toList
  | bool value => boolText value
  | number written => written
  | string written => quotedText written
  | array items => '[' :: compactItems items ++ [']']
  | object members => '{' :: compactMembers members ++ ['}']

def compactItems : List Json → List Char
  | [] => []
  | [item] => compact item
  | item :: rest => compact item ++ ',' :: compactItems rest

def compactMembers : List (List Char × Json) → List Char
  | [] => []
  | [(key, value)] => quotedText key ++ ':' :: compact value
  | (key, value) :: rest => quotedText key ++ ':' :: compact value ++ ',' :: compactMembers rest

end

/-- A new line at a level of indentation. -/
def newLine (level : Nat) : List Char := '\n' :: List.replicate (2 * level) ' '

mutual

/-- A value with one item to a line, at a level of indentation. -/
def indented (level : Nat) : Json → List Char
  | null => "null".toList
  | bool value => boolText value
  | number written => written
  | string written => quotedText written
  | array [] => ['[', ']']
  | array (item :: rest) =>
    '[' :: newLine (level + 1) ++ indented (level + 1) item ++ indentedItems (level + 1) rest ++
      newLine level ++ [']']
  | object [] => ['{', '}']
  | object ((key, value) :: rest) =>
    '{' :: newLine (level + 1) ++ quotedText key ++ [':', ' '] ++ indented (level + 1) value ++
      indentedMembers (level + 1) rest ++ newLine level ++ ['}']

/-- The items after the first, each after a comma on its own line. -/
def indentedItems (level : Nat) : List Json → List Char
  | [] => []
  | item :: rest => ',' :: newLine level ++ indented level item ++ indentedItems level rest

/-- The members after the first, each after a comma on its own line. -/
def indentedMembers (level : Nat) : List (List Char × Json) → List Char
  | [] => []
  | (key, value) :: rest =>
    ',' :: newLine level ++ quotedText key ++ [':', ' '] ++ indented level value ++
      indentedMembers level rest

end

def compactString (j : Json) : String := String.ofList j.compact

def prettyString (j : Json) : String := String.ofList (j.indented 0)

end QuestFormula.Json
