import QuestFormula.Quest.Registry
import QuestFormula.QuestFile.Parser

/-!
Quest templates: quest files with their rewards compiled for a state type. A reward that does not
compile is disabled, and the template has all others.
-/

namespace QuestFormula

/-- A compiled reward, with the identifier of its type in the quest file. -/
structure TemplateReward (S : StateType) where
  rewardType : String
  evaluator : Evaluator S

/-- A quest with its compiled rewards and its disabled ones. -/
structure Template (S : StateType) where
  id : String
  description : String
  rewards : List (TemplateReward S)
  disabled : List DisabledReward

variable {S : StateType}

/-- The reward for a state and the report if the result is not finite, with the members read. -/
def TemplateReward.grant (quest : String) (r : TemplateReward S) (state : S.State) :
    Traced (Binding S) (Logged Reward) := do
  let (result, reward) ← r.evaluator.grant state
  let events :=
    if (floatValue result).isFinite then []
    else [.nonFiniteGrant quest r.rewardType r.evaluator.formula result reward.debug]
  return ⟨reward, events⟩

namespace Template

/-- A declared reward compiled or disabled, with the factory after it. -/
def compileReward (registry : Registry S) (quest : String) (f : Factory) (r : RewardLine) :
    Logged (Except DisabledReward (TemplateReward S) × Factory) := do
  let (outcome, f) ← registry.compile f r.rewardType r.formula
  match outcome with
  | .ok evaluator => return (.ok ⟨r.rewardType, evaluator⟩, f)
  | .error e =>
    let disabled : DisabledReward := ⟨quest, r.rewardType, r.formula, e.message⟩
    Logged.report (.rewardDisabled disabled.message r.line)
    return (.error disabled, f)

/-- Declared rewards compiled or disabled in order, with the factory after them. -/
def compileRewards (registry : Registry S) (quest : String) (f : Factory) :
    List RewardLine → Logged ((List (TemplateReward S) × List DisabledReward) × Factory)
  | [] => pure (([], []), f)
  | r :: rest => do
    let (outcome, f) ← compileReward registry quest f r
    let ((rewards, disabled), f) ← compileRewards registry quest f rest
    match outcome with
    | .ok reward => return ((reward :: rewards, disabled), f)
    | .error reward => return ((rewards, reward :: disabled), f)

def ofFile (q : QuestFile) (registry : Registry S) (f : Factory) :
    Logged (Template S × Factory) := do
  let ((rewards, disabled), f) ← compileRewards registry q.name f q.rewards
  Logged.report (.templateCompiled q.name rewards.length disabled.length)
  return (⟨q.name, q.description, rewards, disabled⟩, f)

/-- The rewards for a state, with the reports on results that are not finite and the members
read. -/
def grant (t : Template S) (state : S.State) : Traced (Binding S) (Logged (List Reward)) := do
  let grants ← t.rewards.mapM (·.grant t.id state)
  return ⟨grants.map (·.value), grants.flatMap (·.events)⟩

def debug (t : Template S) : String :=
  let rewards := t.rewards.map fun r => s!"({quoted r.rewardType}, {quoted r.evaluator.formula})"
  "QuestTemplate \x7b id: QuestId(" ++ quoted t.id ++ "), state: " ++ quoted S.name ++
    ", rewards: [" ++ ", ".intercalate rewards ++ "], disabled: " ++ toString t.disabled.length ++
    " \x7d"

end Template

end QuestFormula
