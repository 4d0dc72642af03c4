/-!
The lines of a text. A line ends before a line feed, which is not part of it, nor is one carriage
return before the line feed; the text after the last line feed is a line unless it is empty.
-/

namespace QuestFormula

/-- A line without the carriage return that ends it. -/
def dropReturn (line : List Char) : List Char :=
  if line.getLast? = some '\r' then line.dropLast else line

/-- The lines that pieces between line feeds make, numbered from `number` on. -/
def linesFrom (number : Nat) : List (List Char) → List (Nat × List Char)
  | [] => []
  | [piece] => if piece = [] then [] else [(number, piece)]
  | piece :: next :: more => (number, dropReturn piece) :: linesFrom (number + 1) (next :: more)

/-- The lines of a text with their numbers, the first being 1. -/
def numberedLines (text : List Char) : List (Nat × List Char) := linesFrom 1 (text.splitOn '\n')

end QuestFormula
