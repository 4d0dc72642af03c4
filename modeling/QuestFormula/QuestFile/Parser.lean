import QuestFormula.Formula.Lexer
import QuestFormula.Log.Logged
import QuestFormula.QuestFile.Basic
import QuestFormula.Text.Lines

/-!
From the text of a quest file to the quest file. A line is blank, a comment that begins with `#`,
or `key = value`, cut at the first equals sign. The name, the state and the description are given
at most once, and the first two must not be empty; a reward is a type and a formula, cut at the
first colon. Other keys are passed over.
-/

namespace QuestFormula

/-- What stands before and after the first separator, if there is one. -/
def cut? (separator : Char) : List Char → Option (List Char × List Char)
  | [] => none
  | c :: rest =>
    if c = separator then some ([], rest)
    else (cut? separator rest).map fun (before, after) => (c :: before, after)

/-- The trimmed line, unless it is blank or a comment. -/
def significant? (line : List Char) : Option (List Char) :=
  match trimBlank line with
  | [] => none
  | '#' :: _ => none
  | content => some content

/-- The trimmed texts before and after the first separator. -/
def cutTrimmed? (separator : Char) (text : List Char) : Option (String × String) :=
  (cut? separator text).map fun (before, after) =>
    (String.ofList (trimBlank before), String.ofList (trimBlank after))

/-- The reward that the value of a reward line declares. -/
def RewardLine.parse (line : Nat) (value : String) : Except RewardFault RewardLine :=
  match cutTrimmed? ':' value.toList with
  | none => .error (.noColon value)
  | some (rewardType, formula) =>
    if rewardType = "" then .error .noType
    else if rewardType.toList.all isNameChar then .ok ⟨rewardType, formula, line⟩
    else .error (.badType rewardType)

/-- What the lines so far have given. -/
structure QuestDraft where
  name : Option String
  state : Option String
  description : Option String
  rewards : List RewardLine

namespace QuestDraft

def empty : QuestDraft := ⟨none, none, none, []⟩

def option (d : QuestDraft) (line : Nat) (key value : String) :
    Logged (Except QuestFileError QuestDraft) :=
  let once (given : Option String) (next : QuestDraft) :
      Logged (Except QuestFileError QuestDraft) :=
    pure (if given.isSome then .error (.duplicateKey line key) else .ok next)
  match key with
  | "name" => once d.name { d with name := some value }
  | "state" => once d.state { d with state := some value }
  | "description" => once d.description { d with description := some value }
  | "reward" =>
    match RewardLine.parse line value with
    | .error fault => pure (.error (.badReward line fault))
    | .ok reward => pure (.ok { d with rewards := d.rewards ++ [reward] })
  | _ => do
    Logged.report (.optionIgnored line key value)
    return .ok d

def line (d : QuestDraft) (number : Nat) (raw : List Char) :
    Logged (Except QuestFileError QuestDraft) :=
  match significant? raw with
  | none => pure (.ok d)
  | some content =>
    match cutTrimmed? '=' content with
    | none => pure (.error (.noEquals number (String.ofList content)))
    | some (key, value) => d.option number key value

/-- The draft after all lines, or the error of the first bad one. -/
def lines (d : QuestDraft) : List (Nat × List Char) → Logged (Except QuestFileError QuestDraft)
  | [] => pure (.ok d)
  | (number, raw) :: rest => do
    match ← d.line number raw with
    | .error e => return .error e
    | .ok d => d.lines rest

def finish (d : QuestDraft) : Except QuestFileError QuestFile :=
  match d.name.filter (· ≠ ""), d.state.filter (· ≠ "") with
  | none, _ => .error (.missingKey "name")
  | some _, none => .error (.missingKey "state")
  | some name, some state => .ok ⟨name, state, d.description.getD "", d.rewards, none⟩

end QuestDraft

namespace QuestFile

def parse (text : String) : Logged (Except QuestFileError QuestFile) := do
  let draft ← QuestDraft.empty.lines (numberedLines text.toList)
  return draft.bind QuestDraft.finish

/-- The identifiers of the reward types, by their first use. -/
def rewardTypes (q : QuestFile) : List String := (q.rewards.map (·.rewardType)).eraseDups

/-- The reports that show a quest file to the reader of the log. -/
def shown (q : QuestFile) : List Event :=
  .templateShown q.name q.state ::
    (if q.description = "" then [] else [.descriptionShown q.description]) ++
    q.rewards.map fun r => .rewardShown r.rewardType r.formula

end QuestFile

end QuestFormula
