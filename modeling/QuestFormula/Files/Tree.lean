/-!
Files and directories as a tree, and the paths to them. A path is a list of names with slashes
between them; an empty name and `.` stay in a directory and `..` goes to the one above it, and each
of them can only be taken in a directory.
-/

namespace QuestFormula

inductive FileFault where
  | notFound
  | notDirectory
  | isDirectory
  | notText
  | other (message : String)
deriving DecidableEq

def FileFault.message : FileFault → String
  | notFound => "No such file or directory (os error 2)"
  | notDirectory => "Not a directory (os error 20)"
  | isDirectory => "Is a directory (os error 21)"
  | notText => "stream did not contain valid UTF-8"
  | other message => message

/-- A file with what comes of reading it as text, or a directory with its entries by name. -/
inductive FileNode where
  | file (text : Except FileFault String)
  | directory (entries : List (String × FileNode))

abbrev Entries := List (String × FileNode)

namespace FileNode

def ofBytes (content : ByteArray) : FileNode :=
  match String.fromUTF8? content with
  | some text => file (.ok text)
  | none => file (.error .notText)

def text : FileNode → Except FileFault String
  | file text => text
  | directory _ => .error .isDirectory

def entries : FileNode → Except FileFault Entries
  | file _ => .error .notDirectory
  | directory entries => .ok entries

def isFile : FileNode → Bool
  | file _ => true
  | directory _ => false

/-- The node that names lead to from a node below some directories, the nearest first. -/
def walk (above : List Entries) (here : FileNode) :
    List (List Char) → Except FileFault FileNode
  | [] => .ok here
  | name :: rest =>
    match here with
    | file _ => .error .notDirectory
    | directory entries =>
      if name = [] ∨ name = ['.'] then walk above here rest
      else if name = ['.', '.'] then
        match above with
        | [] => walk [] here rest
        | parent :: above => walk above (directory parent) rest
      else match entries.lookup (String.ofList name) with
        | none => .error .notFound
        | some node => walk (entries :: above) node rest

/-- The node at a path from a directory. The empty path leads nowhere. -/
def at? (root : FileNode) (path : String) : Except FileFault FileNode :=
  if path = "" then .error .notFound else walk [] root (path.toList.splitOn '/')

def readText (root : FileNode) (path : String) : Except FileFault String := do
  (← root.at? path).text

def readDirectory (root : FileNode) (path : String) : Except FileFault Entries := do
  (← root.at? path).entries

end FileNode

/-- What follows the last point of a name, unless the point is the first character. -/
def extension? (name : String) : Option String :=
  let reversed := name.toList.reverse
  match reversed.dropWhile (· != '.') with
  | _ :: _ :: _ => some (String.ofList (reversed.takeWhile (· != '.')).reverse)
  | _ => none

def joinPath (directory name : String) : String :=
  if directory.toList.getLast? = some '/' then directory ++ name else directory ++ "/" ++ name

end QuestFormula
