import QuestFormula.Formula.Error

/-!
What the library reports while it works.
-/

namespace QuestFormula

inductive Level where
  | debug | info | warn
deriving DecidableEq

def Level.name : Level → String
  | debug => "DEBUG"
  | info => "INFO"
  | warn => "WARN"

/-- Something worth reporting. -/
inductive Event where
  | catalogBuilt (stateType : String) (bindings names : Nat)
  | formulaCompiled (formula stateType rewardType : String) (slots folded specialized : Nat)
  | evaluatorCompiled (descriptor : String)
  | compilationFailed (descriptor : String) (error : FormulaError)
  | rewardReplaced (name stateType : String)
  | optionIgnored (line : Nat) (key value : String)
  | templateShown (name state : String)
  | descriptionShown (description : String)
  | rewardShown (rewardType formula : String)
  | templateRead (name path : String) (rewards : Nat)
  | templatesFound (count : Nat) (directory : String)
  | rewardDisabled (message : String) (line : Nat)
  | templateCompiled (name : String) (rewards disabled : Nat)
  | nonFiniteGrant (quest rewardType formula : String) (result : Float) (granted : String)
  | stateRegistered (stateType name : String)
  | templateReplaced (name : String)
  | templateLoaded (name : String) (rewards disabled : Nat)
  | directoryEntered (directory : String)
  | templateSkipped (path message : String)
  | directoryLoaded (templates failed disabled : Nat)
deriving DecidableEq

namespace Event

def level : Event → Level
  | templateShown .. | descriptionShown _ | rewardShown .. | templateLoaded ..
  | directoryEntered _ | directoryLoaded .. => .info
  | compilationFailed .. | rewardDisabled .. | nonFiniteGrant .. | templateSkipped .. => .warn
  | _ => .debug

def message : Event → String
  | catalogBuilt stateType bindings names =>
    s!"Built variable catalog for {stateType} ({bindings} bindings, {names} names)"
  | formulaCompiled formula stateType rewardType slots folded specialized =>
    s!"Compiled `{formula}` for {stateType} -> {rewardType} " ++
      s!"({slots} slots, {folded} folded, {specialized} specialized)"
  | evaluatorCompiled descriptor => s!"Compiled evaluator for {descriptor}"
  | compilationFailed descriptor error => s!"Failed to compile {descriptor}: {error.message}"
  | rewardReplaced name stateType => s!"Replaced reward type {name} for state {stateType}"
  | optionIgnored line key value =>
    s!"Ignoring unknown quest template option on line {line}: {key} = {value}"
  | templateShown name state => s!"Quest template {name} (state {state})"
  | descriptionShown description => s!"    {description}"
  | rewardShown rewardType formula => s!"    {rewardType} = {formula}"
  | templateRead name path rewards =>
    s!"Loaded quest template {name} from {path} ({rewards} rewards)"
  | templatesFound count directory => s!"Found {count} quest template files in {directory}"
  | rewardDisabled message line => s!"{message} (line {line})"
  | templateCompiled name rewards disabled =>
    s!"Quest template {name}: {rewards} rewards compiled, {disabled} disabled"
  | nonFiniteGrant quest rewardType formula result granted =>
    s!"Quest {quest}: reward {rewardType} (`{formula}`) evaluated to {displayFloat result}, " ++
      s!"granting {granted}"
  | stateRegistered stateType name => s!"Registering quest state {stateType} as {name}"
  | templateReplaced name => s!"Replaced quest template {name}"
  | templateLoaded name rewards disabled =>
    s!"Loaded quest template {name} ({rewards} rewards, {disabled} disabled)"
  | directoryEntered directory => s!"Loading quest templates from {directory}"
  | templateSkipped path message => s!"Skipping quest template {path}: {message}"
  | directoryLoaded templates failed disabled =>
    s!"Loaded {templates} quest templates ({failed} files failed, {disabled} rewards disabled)"

end Event

end QuestFormula
