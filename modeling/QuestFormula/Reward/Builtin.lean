import QuestFormula.Reward.Basic

/-!
The rewards that every quest can grant without further declaration.
-/

namespace QuestFormula

inductive BuiltinReward where
  | experience
  | credits
  | rank
  | unlock
  | reputation
deriving DecidableEq

namespace BuiltinReward

def all : List BuiltinReward := [experience, credits, rank, unlock, reputation]

def kind : BuiltinReward → String
  | experience => "XpReward"
  | credits => "CreditsReward"
  | rank => "RankReward"
  | unlock => "UnlockReward"
  | reputation => "ReputationReward"

/-- What the reward is built from. An unlock key is the text of the formula result. -/
def parameter : BuiltinReward → ParameterType
  | experience => .number (.integer .u32)
  | credits => .number (.integer .i64)
  | rank => .number (.integer .u8)
  | unlock => .text
  | reputation => .number .float32

/-- The reward type. Its name in messages is the identifier after the scope that the host keeps its
rewards in. -/
def type (scope : String) (r : BuiltinReward) : RewardType :=
  ⟨r.kind, scope ++ r.kind, [r.parameter], .literal⟩

end BuiltinReward

/-- The identifiers of the rewards that are always available. -/
def builtinKinds : List String := BuiltinReward.all.map (·.kind)

end QuestFormula
