import QuestFormula.Factory.Basic
import QuestFormula.Quest.Error
import QuestFormula.Reward.Builtin
import QuestFormula.Table

/-!
Registries: the reward types that the quests of a state type may grant, by identifier.
-/

namespace QuestFormula

/-- The reward types available to quests of a state type. -/
structure Registry (S : StateType) where
  rewards : Table RewardType

namespace Registry

variable {S : StateType}

def empty : Registry S := ⟨.empty⟩

/-- The registry with a reward type under an identifier, in place of the one it had. -/
def register (r : Registry S) (name : String) (R : RewardType) : Logged (Registry S) := do
  if r.rewards.contains name then
    Logged.report (.rewardReplaced name S.name)
  return ⟨r.rewards.insert name R⟩

/-- The rewards that are always available, under their own identifiers. -/
def builtin (scope : String) : Registry S :=
  ⟨BuiltinReward.all.foldl (fun t r => t.insert r.kind (r.type scope)) .empty⟩

def debug (r : Registry S) : String :=
  "RewardRegistry \x7b state: " ++ quoted S.name ++ ", reward_types: [" ++
    ", ".intercalate (r.rewards.names.map fun name => s!"RewardTypeName({quoted name})") ++ "] \x7d"

/-- The evaluator of a formula for the reward type under an identifier. -/
def compile (r : Registry S) (f : Factory) (rewardType formula : String) :
    Logged (Except QuestError (Evaluator S) × Factory) :=
  match r.rewards.get? rewardType with
  | none => pure (.error (.unknownReward rewardType), f)
  | some R => do
    let (outcome, f) ← f.request S R formula
    match outcome with
    | .error e => return (.error (.ofFormula e), f)
    | .ok compiled => return (.ok compiled.evaluator, f)

end Registry

end QuestFormula
