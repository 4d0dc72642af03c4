import QuestFormula.Quest.Template
import QuestFormula.QuestFile.Directory

/-!
The manager holds the loaded quest templates by name, the state types that quest files may name,
each with its registry, and one factory for all of them. Loading a directory loads its quest files
one after another; each ends up in the report, as loaded or as failed.
-/

namespace QuestFormula

/-- A state type with the rewards of its quests. -/
structure Registration where
  state : StateType
  registry : Registry state

/-- A loaded template, with the name of its state type in the quest file. -/
structure LoadedTemplate where
  stateName : String
  state : StateType
  template : Template state

/-- What came of loading a quest file. -/
structure TemplateSummary where
  name : String
  state : String
  rewards : Nat
  disabled : List String
deriving DecidableEq

/-- What came of loading a directory: the templates, and the paths that failed with the reasons. -/
structure LoadReport where
  loaded : List TemplateSummary
  failed : List (String × String)
deriving DecidableEq

namespace LoadReport

def disabledCount (r : LoadReport) : Nat := (r.loaded.flatMap (·.disabled)).length

/-- Every file was loaded and every reward compiled. -/
def isClean (r : LoadReport) : Bool := r.failed.isEmpty && r.disabledCount == 0

/-- The report with one more template before its own. -/
def addLoaded (r : LoadReport) (summary : TemplateSummary) : LoadReport :=
  { r with loaded := summary :: r.loaded }

/-- The report with one more failed path before its own. -/
def addFailed (r : LoadReport) (path message : String) : LoadReport :=
  { r with failed := (path, message) :: r.failed }

end LoadReport

/-- The state types and the templates by name, and the factory that they share. -/
structure Manager where
  factory : Factory
  states : Table Registration
  templates : Table LoadedTemplate

namespace Manager

def empty : Manager := ⟨.empty, .empty, .empty⟩

/-- The manager with a state type under a name, in place of the one it had. -/
def registerState (m : Manager) (name : String) {S : StateType} (registry : Registry S) :
    Logged Manager := do
  Logged.report (.stateRegistered S.name name)
  return { m with states := m.states.insert name ⟨S, registry⟩ }

def summarize (q : QuestFile) {S : StateType} (t : Template S) : TemplateSummary :=
  ⟨q.name, q.state, t.rewards.length, t.disabled.map (·.message)⟩

/-- Loads a quest file in place of the template of the same name. A quest file with an unknown state
type changes nothing. -/
def load (m : Manager) (q : QuestFile) : Logged (Except QuestError TemplateSummary × Manager) :=
  match m.states.get? q.state with
  | none => pure (.error (.unknownState q.state), m)
  | some ⟨S, registry⟩ => do
    let (template, factory) ← Template.ofFile q registry m.factory
    if m.templates.contains q.name then
      Logged.report (.templateReplaced q.name)
    let summary := summarize q template
    Logged.report (.templateLoaded summary.name summary.rewards summary.disabled.length)
    return (.ok summary, { m with
      factory := factory
      templates := m.templates.insert q.name ⟨q.state, S, template⟩ })

def loadFiles (m : Manager) :
    List (String × Except QuestFileError QuestFile) → Logged (LoadReport × Manager)
  | [] => pure (⟨[], []⟩, m)
  | (path, .error e) :: rest => do
    Logged.report (.templateSkipped path e.message)
    let (report, m) ← m.loadFiles rest
    return (report.addFailed path e.message, m)
  | (path, .ok q) :: rest => do
    let (outcome, m) ← m.load q
    match outcome with
    | .ok summary =>
      let (report, m) ← m.loadFiles rest
      return (report.addLoaded summary, m)
    | .error e =>
      Logged.report (.templateSkipped path e.message)
      let (report, m) ← m.loadFiles rest
      return (report.addFailed path e.message, m)

/-- Loads the quest files of a directory, given what came of listing it. -/
def loadDirectory (m : Manager) (directory : String) (listing : Except FileFault Entries) :
    Logged (Except QuestError LoadReport × Manager) := do
  Logged.report (.directoryEntered directory)
  match listing with
  | .error fault => return (.error (.ofFile (.unreadable directory fault)), m)
  | .ok entries =>
    let files ← QuestFile.loadEntries directory entries
    let (report, m) ← m.loadFiles files
    Logged.report (.directoryLoaded report.loaded.length report.failed.length report.disabledCount)
    return (.ok report, m)

/-- The template of a name, if it was loaded for a state type. -/
def template? (m : Manager) (S : StateType) (name : String) : Option (Template S) :=
  (m.templates.get? name).bind fun t => if h : t.state = S then some (h ▸ t.template) else none

/-- The name of the state type that the template of a name was loaded for. -/
def stateOf? (m : Manager) (name : String) : Option String :=
  (m.templates.get? name).map (·.stateName)

def templateNames (m : Manager) : List String := m.templates.names

def templateCount (m : Manager) : Nat := m.templates.size

/-- Removes the template of a name, and tells whether there was one. -/
def remove (m : Manager) (name : String) : Bool × Manager :=
  (m.templates.contains name, { m with templates := m.templates.erase name })

end Manager

end QuestFormula
