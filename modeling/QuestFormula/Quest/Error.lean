import QuestFormula.Formula.Error
import QuestFormula.QuestFile.Basic

/-!
What can go wrong with a quest, as told to those who load and grant quests.
-/

namespace QuestFormula

/-- A reward that cannot be granted because it does not compile. The rest of its quest can. -/
structure DisabledReward where
  quest : String
  rewardType : String
  formula : String
  reason : String
deriving DecidableEq

def DisabledReward.message (d : DisabledReward) : String :=
  s!"Quest `{d.quest}`: reward {d.rewardType} (`{d.formula}`) disabled: {d.reason}"

inductive QuestError where
  | config (message : String)
  | formula (message : String)
  | io (message : String)
  | rewardDisabled (reward : DisabledReward)
  | unknownReward (name : String)
  | unknownState (name : String)
  | notFound (what : String)
deriving DecidableEq

namespace QuestError

def message : QuestError → String
  | config message => s!"Configuration error: {message}"
  | formula message => s!"Formula error: {message}"
  | io message => s!"IO error: {message}"
  | rewardDisabled reward => reward.message
  | unknownReward name => s!"Unknown reward type: {name}"
  | unknownState name => s!"Unknown quest state type: {name}"
  | notFound what => s!"Not found: {what}"

def ofFormula (e : FormulaError) : QuestError := formula e.message

def ofFile (e : QuestFileError) : QuestError := config e.message

end QuestError

end QuestFormula
