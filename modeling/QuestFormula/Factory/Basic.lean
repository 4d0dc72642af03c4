import QuestFormula.Evaluator.Basic
import QuestFormula.Factory.Memo

/-!
The factory compiles each formula once for each pair of a state type and a reward type, and each
catalog once for each state type. A failure is kept like a success. What is kept is erased, and a
request recovers its type.
-/

namespace QuestFormula

/-- What to compile: a formula for a state type and a reward type. -/
structure Descriptor where
  state : StateType
  reward : RewardType
  formula : String
deriving DecidableEq

namespace Descriptor

def display (d : Descriptor) : String :=
  s!"`{d.formula}` ({d.state.name} -> {d.reward.name})"

/-- The error of a request for other types. -/
def mismatch (d : Descriptor) (S : StateType) (R : RewardType) : FormulaError :=
  .descriptorMismatch d.display s!"{S.name} -> {R.name}"

end Descriptor

/-- An evaluator with its number among the compilations of its factory. -/
structure Compiled (S : StateType) where
  serial : Nat
  evaluator : Evaluator S

abbrev Outcome (S : StateType) : Type := Except FormulaError (Compiled S)

/-- A state type and a reward type. -/
structure TypePair where
  state : StateType
  reward : RewardType
deriving DecidableEq

/-- An outcome as a factory keeps it. -/
abbrev Kept : Type := Except FormulaError (Erased fun types : TypePair => Compiled types.state)

/-- The outcome for the types of a descriptor: a mismatch if what is kept is an evaluator for
others. -/
def Kept.outcome (d : Descriptor) : Kept → Outcome d.state
  | .error error => .error error
  | .ok erased =>
    match erased.downcast? ⟨d.state, d.reward⟩ with
    | some compiled => .ok compiled
    | none => .error (d.mismatch d.state d.reward)

/-- The catalogs built so far. -/
structure CatalogCache where
  memo : Memo StateType (Erased Catalog)

namespace CatalogCache

def empty : CatalogCache := ⟨.empty⟩

def size (cache : CatalogCache) : Nat := cache.memo.size

def build (S : StateType) : Logged (Catalog S) := do
  let c := Catalog.build S
  Logged.report c.built
  return c

/-- The catalog of a state type, built on the first request. -/
def get (cache : CatalogCache) (S : StateType) : Logged (Catalog S × CatalogCache) := do
  let (kept, cache) ← match cache.memo.find? S with
    | some kept => pure (kept, cache)
    | none => do
      let kept : Erased Catalog := ⟨S, ← build S⟩
      pure (kept, ⟨cache.memo.add S kept⟩)
  match kept.downcast? S with
  | some c => return (c, cache)
  | none => return (← build S, cache)

end CatalogCache

/-- The outcomes and the catalogs so far, and the number of compilations, failed ones included. -/
structure Factory where
  catalogs : CatalogCache
  outcomes : Memo Descriptor Kept
  compilations : Nat

namespace Factory

def empty : Factory := ⟨.empty, .empty, 0⟩

def size (f : Factory) : Nat := f.outcomes.size

def debug (f : Factory) : String :=
  "RewardFactory \x7b evaluators: " ++ toString f.size ++
    ", catalogs: " ++ toString f.catalogs.size ++
    ", compilations: " ++ toString f.compilations ++ " \x7d"

/-- The catalog of a state type, built on the first request. -/
def catalog (f : Factory) (S : StateType) : Logged (Catalog S × Factory) := do
  let (c, catalogs) ← f.catalogs.get S
  return (c, { f with catalogs })

/-- The evaluator of a formula with a catalog of its state type. -/
def compileWith {S : StateType} (c : Catalog S) (R : RewardType) (formula : String) :
    Except FormulaError (Evaluator S × Code.Savings) := do
  let expr ← parse formula
  let bound ← c.resolve formula expr
  bound.compile R

/-- The outcome for a key, with the reports on it. -/
def compile {S : StateType} (c : Catalog S) (R : RewardType) (formula : String) (serial : Nat) :
    Logged Kept :=
  let shown := Descriptor.display ⟨S, R, formula⟩
  match compileWith c R formula with
  | .ok (e, savings) => do
    Logged.report (e.compiled savings)
    Logged.report (.evaluatorCompiled shown)
    return .ok ⟨⟨S, R⟩, ⟨serial, e⟩⟩
  | .error error => do
    Logged.report (.compilationFailed shown error)
    return .error error

/-- What is kept for a descriptor, compiled on the first request. -/
def keep (f : Factory) (d : Descriptor) : Logged (Kept × Factory) :=
  match f.outcomes.find? d with
  | some kept => pure (kept, f)
  | none => do
    let (c, f) ← f.catalog d.state
    let kept ← compile c d.reward d.formula f.compilations
    return (kept, { f with
      outcomes := f.outcomes.add d kept
      compilations := f.compilations + 1 })

/-- The outcome for a formula, compiled on the first request. -/
def request (f : Factory) (S : StateType) (R : RewardType) (formula : String) :
    Logged (Outcome S × Factory) := do
  let (kept, f) ← f.keep ⟨S, R, formula⟩
  return (kept.outcome ⟨S, R, formula⟩, f)

/-- The outcome for a descriptor where types are asked for: a mismatch unless the descriptor is
about them. -/
def getOrCompile (f : Factory) (d : Descriptor) (S : StateType) (R : RewardType) :
    Logged (Outcome S × Factory) :=
  if d.state = S ∧ d.reward = R then f.request S R d.formula
  else pure (.error (d.mismatch S R), f)

/-- The outcomes of as many requests for one descriptor. -/
def getOrCompileMany (f : Factory) (d : Descriptor) :
    Nat → Logged (List (Outcome d.state) × Factory)
  | 0 => pure ([], f)
  | count + 1 => do
    let (outcome, f) ← f.getOrCompile d d.state d.reward
    let (outcomes, f) ← f.getOrCompileMany d count
    return (outcome :: outcomes, f)

end Factory

end QuestFormula
