import QuestFormula.QuestFile.Parser

/-!
Quest files on disk. The quest files of a directory are its files with the extension `quest`, in the
order of their names; a file that cannot be used fails alone, and a directory that cannot be read
fails the whole.
-/

namespace QuestFormula

def questExtension : String := "quest"

namespace QuestFile

/-- The quest file that a text read from a path holds. -/
def ofText (path : String) : Except FileFault String → Logged (Except QuestFileError QuestFile)
  | .error fault => pure (.error (.unreadable path fault))
  | .ok text => do
    match ← parse text with
    | .error e => return .error (.inFile path e)
    | .ok q =>
      Logged.report (.templateRead q.name path q.rewards.length)
      return .ok { q with source := some path }

def load (root : FileNode) (path : String) : Logged (Except QuestFileError QuestFile) :=
  ofText path (root.readText path)

/-- The quest files among the entries of a directory, in the order of their names. -/
def candidates (entries : Entries) : Entries :=
  (entries.filter fun e => e.2.isFile && extension? e.1 = some questExtension).mergeSort
    fun a b => decide (a.1 ≤ b.1)

/-- The paths of the quest files among the entries of a directory, in order. -/
def paths (directory : String) (entries : Entries) : List String :=
  (candidates entries).map fun e => joinPath directory e.1

/-- The quest files that entries of a directory hold, by path. -/
def loadAll (directory : String) :
    Entries → Logged (List (String × Except QuestFileError QuestFile))
  | [] => pure []
  | (name, node) :: rest => do
    let path := joinPath directory name
    let outcome ← ofText path node.text
    let outcomes ← loadAll directory rest
    return (path, outcome) :: outcomes

/-- The quest files among the entries of a directory, by path. -/
def loadEntries (directory : String) (entries : Entries) :
    Logged (List (String × Except QuestFileError QuestFile)) := do
  let files := candidates entries
  Logged.report (.templatesFound files.length directory)
  loadAll directory files

end QuestFile

end QuestFormula
