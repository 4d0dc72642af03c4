import QuestFormula.State.Member

/-!
State types. A state type declares members of its own and embeds other state types as bases, in any
order; its states hold a value for every member and a state for every base. A member of the type or
of a base, at any depth, is reached by an access, and types are told apart by their names.
-/

namespace QuestFormula

/-- What a state type declares, in order. -/
inductive Declarations where
  | nil
  | member (m : Member) (rest : Declarations)
  | base (typeName : String) (embedded rest : Declarations)
deriving DecidableEq

/-- A state type with its name in messages. -/
structure StateType where
  name : String
  declarations : Declarations
deriving DecidableEq

/-- The states of a type: a value for every member and a state for every base. -/
def Declarations.State : Declarations → Type
  | .nil => Unit
  | .member m rest => m.type.Value × rest.State
  | .base _ embedded rest => embedded.State × rest.State

abbrev StateType.State (S : StateType) : Type := S.declarations.State

/-- The way to a member: past declarations and into bases. -/
inductive Access : Declarations → Type where
  | here {m : Member} {rest : Declarations} : Access (.member m rest)
  | next {m : Member} {rest : Declarations} (a : Access rest) : Access (.member m rest)
  | inside {typeName : String} {embedded rest : Declarations} (a : Access embedded) :
      Access (.base typeName embedded rest)
  | past {typeName : String} {embedded rest : Declarations} (a : Access rest) :
      Access (.base typeName embedded rest)
deriving DecidableEq

namespace Access

def member : {ds : Declarations} → Access ds → Member
  | .member m _, here => m
  | _, next a | _, inside a | _, past a => a.member

/-- The names of the types on the way, from `owner`, which makes the declarations, to the type that
declares the member. -/
def lineage (owner : String) : {ds : Declarations} → Access ds → List String
  | _, here => [owner]
  | _, next a | _, past a => a.lineage owner
  | .base typeName _ _, inside a => owner :: a.lineage typeName

/-- Reads the member in a state and reduces it, if its type has a number. -/
def reader? : {ds : Declarations} → Access ds → Option (ds.State → Float)
  | .member m _, here => m.type.reduce?.map fun reduce state => reduce state.1
  | _, next a | _, past a => a.reader?.map fun read state => read state.2
  | _, inside a => a.reader?.map fun read state => read state.1

end Access

/-- The ways to all members, those of a base in its place. -/
def Declarations.accesses : (ds : Declarations) → List (Access ds)
  | .nil => []
  | .member _ rest => .here :: rest.accesses.map .next
  | .base _ embedded rest => embedded.accesses.map .inside ++ rest.accesses.map .past

/-- The number of bases that the longest way goes into. -/
def Declarations.height : Declarations → Nat
  | .nil => 0
  | .member _ rest => rest.height
  | .base _ embedded rest => max (embedded.height + 1) rest.height

end QuestFormula
