import QuestFormula.Files.Tree

/-!
Quest files: a quest's name, the name of the state type that tracks its progress, a description, and
the formulas of its rewards. The formulas are only carried here; they are compiled when the quest is
loaded.
-/

namespace QuestFormula

/-- A reward of a quest file: the identifier of its type, its formula, and the line it stands on. -/
structure RewardLine where
  rewardType : String
  formula : String
  line : Nat
deriving DecidableEq

/-- A quest file, with the path it was read from. -/
structure QuestFile where
  name : String
  state : String
  description : String
  rewards : List RewardLine
  source : Option String
deriving DecidableEq

inductive RewardFault where
  | noColon (value : String)
  | noType
  | badType (name : String)
deriving DecidableEq

def RewardFault.message : RewardFault → String
  | noColon value => s!"expected `<RewardType>: <formula>`, found `{value}`"
  | noType => "missing reward type"
  | badType name => s!"invalid reward type `{name}`"

inductive QuestFileError where
  | noEquals (line : Nat) (content : String)
  | badReward (line : Nat) (fault : RewardFault)
  | duplicateKey (line : Nat) (key : String)
  | missingKey (key : String)
  | inFile (path : String) (error : QuestFileError)
  | unreadable (path : String) (fault : FileFault)
deriving DecidableEq

namespace QuestFileError

def message : QuestFileError → String
  | noEquals line content => s!"line {line}: expected `key = value`, found `{content}`"
  | badReward line fault => s!"line {line}: invalid reward declaration: {fault.message}"
  | duplicateKey line key => s!"line {line}: duplicate key `{key}`"
  | missingKey key => s!"missing required key `{key}`"
  | inFile path error => s!"{path}: {error.message}"
  | unreadable path fault => s!"{path}: {fault.message}"

/-- The line that the error is about. -/
def line? : QuestFileError → Option Nat
  | noEquals line _ | badReward line _ | duplicateKey line _ => some line
  | inFile _ error => error.line?
  | missingKey _ | unreadable .. => none

end QuestFileError

end QuestFormula
