import Mathlib
import QuestFormula.QuestFile.Parser

/-!
The format of a quest file, without the parser: which lines of a text count, which texts are well
formed, what a well-formed text says, and which line is the first to offend.  The parser is shown
to accept exactly the well-formed texts, with exactly what they say, and to fail on every other text
with the offence of the first offending line.

The argument goes from the right.  As long as no line offends, the draft is a function of the lines
read, `QuestDraft.ofLines`; `take_of_offends` and `take_of_not_offends` say what one more line does
to it, and `read_of_clean` and `read_of_firstOffence` what all lines do.
-/

namespace QuestFormula

/-! ## The format -/

/-- The trimmed text before the first separator, or the whole text without one. -/
def textBefore (separator : Char) (text : List Char) : String :=
  String.ofList (trimBlank (text.takeWhile (· ≠ separator)))

/-- The trimmed text after the first separator. -/
def textAfter (separator : Char) (text : List Char) : String :=
  String.ofList (trimBlank ((text.dropWhile (· ≠ separator)).drop 1))

/-- A line of a text: its number and what it holds between the blanks at its ends. -/
structure TextLine where
  number : Nat
  content : List Char
deriving DecidableEq

namespace TextLine

/-- The line is neither blank nor a comment. -/
def significant (line : TextLine) : Bool := line.content ≠ [] ∧ line.content.head? ≠ some '#'

def key (line : TextLine) : String := textBefore '=' line.content

def value (line : TextLine) : String := textAfter '=' line.content

def rewardType (line : TextLine) : String := textBefore ':' line.value.toList

def formula (line : TextLine) : String := textAfter ':' line.value.toList

/-- The line read as a reward. -/
def reward (line : TextLine) : RewardLine := ⟨line.rewardType, line.formula, line.number⟩

/-- The value is a reward type, a colon and a formula. -/
structure DeclaresReward (line : TextLine) : Prop where
  colon : ':' ∈ line.value.toList
  named : line.rewardType ≠ ""
  plain : line.rewardType.toList.all isNameChar

end TextLine

/-- The lines of a text that count, with their numbers among all lines, the first being 1. -/
def significantLines (text : String) : List TextLine :=
  (((text.toList.splitOn '\n').zipIdx 1).map fun (piece, number) =>
    ⟨number, trimBlank piece⟩).filter TextLine.significant

/-- The keys that may be given only once. -/
def onceKeys : List String := ["name", "state", "description"]

/-- The value that the first line with a key gives it. -/
def given? (key : String) (lines : List TextLine) : Option String :=
  (lines.find? (·.key = key)).map (·.value)

/-- The rewards that lines declare, in their order. -/
def rewardsOf (lines : List TextLine) : List RewardLine :=
  (lines.filter (·.key = "reward")).map (·.reward)

/-- What well-formed lines say. -/
def QuestFile.ofLines (lines : List TextLine) : QuestFile where
  name := (given? "name" lines).getD ""
  state := (given? "state" lines).getD ""
  description := (given? "description" lines).getD ""
  rewards := rewardsOf lines
  source := none

/-- Some line gives the key a value that is not empty. -/
def Gives (lines : List TextLine) (key : String) : Prop :=
  ∃ line ∈ lines, line.key = key ∧ line.value ≠ ""

instance (lines : List TextLine) (key : String) : Decidable (Gives lines key) :=
  inferInstanceAs (Decidable (∃ line ∈ lines, line.key = key ∧ line.value ≠ ""))

/-- Every line is an option, no option is given twice that may be given once, and every reward is
one. -/
structure AllProper (lines : List TextLine) : Prop where
  options : ∀ line ∈ lines, '=' ∈ line.content
  once : ∀ key ∈ onceKeys, lines.countP (·.key = key) ≤ 1
  rewards : ∀ line ∈ lines, line.key = "reward" → line.DeclaresReward

/-- The lines make a quest file. -/
structure WellFormed (lines : List TextLine) : Prop extends AllProper lines where
  named : Gives lines "name"
  tracked : Gives lines "state"

/-- What is wrong with a line after the lines before it. -/
inductive Offends (before : List TextLine) (line : TextLine) : QuestFileError → Prop
  | noEquals : '=' ∉ line.content →
      Offends before line (.noEquals line.number (String.ofList line.content))
  | duplicate {earlier : TextLine} : '=' ∈ line.content → line.key ∈ onceKeys →
      earlier ∈ before → earlier.key = line.key →
      Offends before line (.duplicateKey line.number line.key)
  | noColon : '=' ∈ line.content → line.key = "reward" → ':' ∉ line.value.toList →
      Offends before line (.badReward line.number (.noColon line.value))
  | noType : '=' ∈ line.content → line.key = "reward" → ':' ∈ line.value.toList →
      line.rewardType = "" → Offends before line (.badReward line.number .noType)
  | badType : '=' ∈ line.content → line.key = "reward" → ':' ∈ line.value.toList →
      line.rewardType ≠ "" → ¬ line.rewardType.toList.all isNameChar →
      Offends before line (.badReward line.number (.badType line.rewardType))

/-- No line offends. -/
def Clean (lines : List TextLine) : Prop :=
  ∀ before line after e, lines = before ++ line :: after → ¬ Offends before line e

/-- The offence of the first line that offends. -/
def FirstOffence (lines : List TextLine) (e : QuestFileError) : Prop :=
  ∃ before line after, lines = before ++ line :: after ∧ Clean before ∧ Offends before line e

/-- What fails lines of which none offends. -/
inductive Lacks (lines : List TextLine) : QuestFileError → Prop
  | name : ¬ Gives lines "name" → Lacks lines (.missingKey "name")
  | state : Gives lines "name" → ¬ Gives lines "state" → Lacks lines (.missingKey "state")

/-! ## Cutting and trimming -/

theorem cut?_eq (separator : Char) : (text : List Char) → cut? separator text =
    if separator ∈ text then
      some (text.takeWhile (· ≠ separator), (text.dropWhile (· ≠ separator)).drop 1)
    else none
  | [] => rfl
  | c :: rest => by
    by_cases hc : c = separator
    · subst hc
      simp [cut?]
    · rw [cut?, if_neg hc, cut?_eq separator rest]
      by_cases hr : separator ∈ rest
      · simp [hc, hr]
      · simp [hr, Ne.symm hc]

theorem cutTrimmed?_eq (separator : Char) (text : List Char) : cutTrimmed? separator text =
    if separator ∈ text then some (textBefore separator text, textAfter separator text)
    else none := by
  rw [cutTrimmed?, cut?_eq]
  split <;> rfl

theorem trimBlank_concat (text : List Char) {c : Char} (hc : isBlank c = true) :
    trimBlank (text ++ [c]) = trimBlank text := by
  rw [trimBlank, trimBlank, List.dropWhile_append]
  split
  next h => simp [List.isEmpty_iff.mp h, hc]
  next => simp [hc]

theorem trimBlank_dropReturn (piece : List Char) :
    trimBlank (dropReturn piece) = trimBlank piece := by
  rw [dropReturn]
  split
  next h =>
    obtain ⟨text, rfl⟩ := List.getLast?_eq_some_iff.mp h
    rw [List.dropLast_concat, trimBlank_concat text (by decide)]
  next => rfl

theorem significant?_eq (number : Nat) (raw : List Char) :
    (significant? raw).map (TextLine.mk number) =
      if TextLine.significant ⟨number, trimBlank raw⟩ then some ⟨number, trimBlank raw⟩
      else none := by
  rw [significant?]
  rcases trimBlank raw with _ | ⟨c, rest⟩
  · rfl
  · by_cases hc : c = '#'
    · subst hc
      rfl
    · simp [TextLine.significant, hc]

/-- The numbered lines that are significant, read from the pieces between line feeds. -/
theorem filterMap_linesFrom : (number : Nat) → (pieces : List (List Char)) →
    (linesFrom number pieces).filterMap (fun line =>
        (significant? line.2).map (TextLine.mk line.1)) =
      ((pieces.zipIdx number).map fun (piece, number) =>
        (⟨number, trimBlank piece⟩ : TextLine)).filter TextLine.significant
  | _, [] => rfl
  | number, [piece] => by
    by_cases hnil : piece = []
    · subst hnil
      rfl
    · rw [linesFrom, if_neg hnil, List.filterMap_cons, significant?_eq, List.zipIdx_singleton,
        List.map_singleton, List.filter_cons]
      cases TextLine.significant ⟨number, trimBlank piece⟩ <;> rfl
  | number, piece :: next :: more => by
    rw [linesFrom, List.filterMap_cons, filterMap_linesFrom (number + 1) (next :: more),
      significant?_eq, trimBlank_dropReturn]
    generalize next :: more = rest
    rw [List.zipIdx_cons, List.map_cons, List.filter_cons]
    cases TextLine.significant ⟨number, trimBlank piece⟩ <;> rfl

/-! ## The draft that lines leave -/

namespace QuestDraft

/-- The draft that lines leave if none of them offends. -/
def ofLines (lines : List TextLine) : QuestDraft where
  name := given? "name" lines
  state := given? "state" lines
  description := given? "description" lines
  rewards := rewardsOf lines

/-- The draft after a significant line. -/
def take (d : QuestDraft) (line : TextLine) : Except QuestFileError QuestDraft :=
  if '=' ∈ line.content then (d.option line.number line.key line.value).value
  else .error (.noEquals line.number (String.ofList line.content))

theorem value_line (d : QuestDraft) (number : Nat) (raw : List Char) :
    (d.line number raw).value =
      ((significant? raw).map (TextLine.mk number)).elim (.ok d) d.take := by
  rw [line]
  split
  next h =>
    rw [h]
    rfl
  next content h =>
    rw [h, cutTrimmed?_eq, Option.map_some, Option.elim_some, take]
    by_cases hc : '=' ∈ content
    · rw [if_pos hc, if_pos hc]
      rfl
    · rw [if_neg hc, if_neg hc]
      rfl

/-- The lines of a text are taken one after another, those that are not significant left out. -/
theorem value_lines : (numbered : List (Nat × List Char)) → (d : QuestDraft) →
    (d.lines numbered).value = (numbered.filterMap fun line =>
      (significant? line.2).map (TextLine.mk line.1)).foldlM take d
  | [], _ => rfl
  | (number, raw) :: rest, d => by
    rw [lines, Logged.value_bind, value_line, List.filterMap_cons]
    dsimp only
    cases h : (significant? raw).map (TextLine.mk number) with
    | none => exact value_lines rest d
    | some line =>
      rw [Option.elim_some, List.foldlM_cons]
      cases d.take line with
      | error e => rfl
      | ok d' => exact value_lines rest d'

end QuestDraft

/-- A text is read by taking its significant lines one after another. -/
theorem QuestFile.value_parse (text : String) : (parse text).value =
    ((significantLines text).foldlM QuestDraft.take (QuestDraft.ofLines [])).bind
      QuestDraft.finish := by
  rw [parse, Logged.value_bind, QuestDraft.value_lines, numberedLines, filterMap_linesFrom]
  rfl

/-! ## One more line -/

section Concat

variable (before : List TextLine) (line : TextLine)

theorem given?_concat (key : String) : given? key (before ++ [line]) =
    (given? key before).or (if line.key = key then some line.value else none) := by
  simp only [given?, List.find?_append, Option.map_or, List.find?_singleton]
  split <;> simp_all

theorem rewardsOf_concat : rewardsOf (before ++ [line]) =
    rewardsOf before ++ if line.key = "reward" then [line.reward] else [] := by
  simp only [rewardsOf, List.filter_append, List.map_append, List.filter_cons, List.filter_nil]
  split <;> simp_all

end Concat

variable {before lines : List TextLine} {line : TextLine} {e : QuestFileError}

theorem isSome_given? {key : String} :
    (given? key lines).isSome ↔ ∃ line ∈ lines, line.key = key := by
  simp [given?]

namespace QuestDraft

/-- An option that may be given once is refused if a line before it gives it. -/
theorem take_of_once (heq : '=' ∈ line.content) (hkey : line.key ∈ onceKeys) :
    (ofLines before).take line =
      if (given? line.key before).isSome then .error (.duplicateKey line.number line.key)
      else .ok (ofLines (before ++ [line])) := by
  rw [take, if_pos heq]
  simp only [ofLines, given?_concat, rewardsOf_concat]
  simp only [onceKeys, List.mem_cons, List.not_mem_nil, or_false] at hkey
  -- The three options differ in nothing but the field that they set.
  rcases hkey with h | h | h <;> rw [h] <;> simp only [option] <;> cases given? _ before <;> simp

theorem take_of_reward (heq : '=' ∈ line.content) (hkey : line.key = "reward") :
    (ofLines before).take line =
      if ':' ∈ line.value.toList then
        if line.rewardType = "" then .error (.badReward line.number .noType)
        else if line.rewardType.toList.all isNameChar then .ok (ofLines (before ++ [line]))
        else .error (.badReward line.number (.badType line.rewardType))
      else .error (.badReward line.number (.noColon line.value)) := by
  have hnext : ofLines (before ++ [line]) =
      { ofLines before with rewards := rewardsOf before ++ [line.reward] } := by
    simp [ofLines, given?_concat, rewardsOf_concat, hkey]
  rw [take, if_pos heq, hkey, hnext]
  simp only [option, RewardLine.parse, cutTrimmed?_eq, ← TextLine.rewardType.eq_1,
    ← TextLine.formula.eq_1]
  by_cases hcolon : ':' ∈ line.value.toList
  · by_cases htype : line.rewardType = ""
    · simp only [if_pos hcolon, if_pos htype, Logged.value_pure]
    · by_cases hplain : line.rewardType.toList.all isNameChar
      · simp only [if_pos hcolon, if_neg htype, if_pos hplain, Logged.value_pure]
        rfl
      · simp only [if_pos hcolon, if_neg htype, if_neg hplain, Logged.value_pure]
  · simp only [if_neg hcolon, Logged.value_pure]

theorem take_of_other (heq : '=' ∈ line.content) (honce : line.key ∉ onceKeys)
    (hkey : line.key ≠ "reward") :
    (ofLines before).take line = .ok (ofLines (before ++ [line])) := by
  simp only [onceKeys, List.mem_cons, List.not_mem_nil, or_false, not_or] at honce
  obtain ⟨hname, hstate, hdescription⟩ := honce
  rw [take, if_pos heq, option]
  · simp [ofLines, given?_concat, rewardsOf_concat, *]
  all_goals assumption

theorem take_of_offends (h : Offends before line e) : (ofLines before).take line = .error e := by
  cases h with
  | noEquals heq => rw [take, if_neg heq]
  | duplicate heq honce hmem hkey =>
    rw [take_of_once heq honce, if_pos (isSome_given?.mpr ⟨_, hmem, hkey⟩)]
  | noColon heq hkey hcolon => rw [take_of_reward heq hkey, if_neg hcolon]
  | noType heq hkey hcolon htype => rw [take_of_reward heq hkey, if_pos hcolon, if_pos htype]
  | badType heq hkey hcolon htype hplain =>
    rw [take_of_reward heq hkey, if_pos hcolon, if_neg htype, if_neg hplain]

end QuestDraft

/-- What a line must be to not offend. -/
theorem not_offends_iff : (∀ e, ¬ Offends before line e) ↔ '=' ∈ line.content ∧
    (line.key ∈ onceKeys → ∀ earlier ∈ before, earlier.key ≠ line.key) ∧
    (line.key = "reward" → line.DeclaresReward) := by
  constructor
  · intro h
    have heq : '=' ∈ line.content := by
      by_contra hno
      exact h _ (.noEquals hno)
    refine ⟨heq, fun honce earlier hmem hkey => h _ (.duplicate heq honce hmem hkey),
      fun hkey => ?_⟩
    have hcolon : ':' ∈ line.value.toList := by
      by_contra hno
      exact h _ (.noColon heq hkey hno)
    have hnamed : line.rewardType ≠ "" := fun htype => h _ (.noType heq hkey hcolon htype)
    have hplain : line.rewardType.toList.all isNameChar := by
      by_contra hno
      exact h _ (.badType heq hkey hcolon hnamed hno)
    exact ⟨hcolon, hnamed, hplain⟩
  · rintro ⟨heq, honce, hreward⟩ e h
    cases h with
    | noEquals hno => exact hno heq
    | duplicate _ hkey hmem hsame => exact honce hkey _ hmem hsame
    | noColon _ hkey hno => exact hno (hreward hkey).colon
    | noType _ hkey _ hno => exact (hreward hkey).named hno
    | badType _ hkey _ _ hno => exact hno (hreward hkey).plain

theorem QuestDraft.take_of_not_offends (h : ∀ e, ¬ Offends before line e) :
    (ofLines before).take line = .ok (ofLines (before ++ [line])) := by
  obtain ⟨heq, honce, hreward⟩ := not_offends_iff.mp h
  by_cases hkey : line.key ∈ onceKeys
  · have hnew : ¬ (given? line.key before).isSome := by
      rw [isSome_given?]
      rintro ⟨earlier, hmem, hsame⟩
      exact honce hkey earlier hmem hsame
    rw [take_of_once heq hkey, if_neg hnew]
  · by_cases hr : line.key = "reward"
    · have hd := hreward hr
      rw [take_of_reward heq hr, if_pos hd.colon, if_neg hd.named, if_pos hd.plain]
    · exact take_of_other heq hkey hr

/-! ## All lines -/

theorem clean_nil : Clean [] := by
  intro before line after e h
  simp at h

theorem clean_concat : Clean (lines ++ [line]) ↔ Clean lines ∧ ∀ e, ¬ Offends lines line e := by
  constructor
  · refine fun h => ⟨fun before l after e hl => ?_, fun e => h lines line [] e rfl⟩
    exact h before l (after ++ [line]) e (by rw [hl]; simp)
  · rintro ⟨hclean, hlast⟩ before l after e hl
    rcases List.eq_nil_or_concat after with rfl | ⟨after, last, rfl⟩
    · obtain ⟨rfl, hl⟩ := List.append_inj' hl rfl
      obtain rfl : line = l := by simpa using hl
      exact hlast e
    · rw [List.concat_eq_append, ← List.cons_append, ← List.append_assoc] at hl
      exact hclean before l after e (List.append_inj' hl rfl).1

theorem FirstOffence.append (h : FirstOffence lines e) (more : List TextLine) :
    FirstOffence (lines ++ more) e := by
  obtain ⟨before, line, after, rfl, hclean, he⟩ := h
  exact ⟨before, line, after ++ more, by simp, hclean, he⟩

theorem clean_or_firstOffence (lines : List TextLine) :
    Clean lines ∨ ∃ e, FirstOffence lines e := by
  induction lines using List.reverseRecOn with
  | nil => exact .inl clean_nil
  | append_singleton lines line ih =>
    rcases ih with hclean | ⟨e, he⟩
    · by_cases hlast : ∃ e, Offends lines line e
      · obtain ⟨e, he⟩ := hlast
        exact .inr ⟨e, lines, line, [], rfl, hclean, he⟩
      · exact .inl (clean_concat.mpr ⟨hclean, not_exists.mp hlast⟩)
    · exact .inr ⟨e, he.append [line]⟩

theorem countP_concat (key : String) : (lines ++ [line]).countP (·.key = key) ≤ 1 ↔
    lines.countP (·.key = key) ≤ 1 ∧ (line.key = key → ∀ earlier ∈ lines, earlier.key ≠ key) := by
  have hzero : lines.countP (·.key = key) = 0 ↔ ∀ earlier ∈ lines, earlier.key ≠ key := by
    simp [List.countP_eq_zero]
  rw [List.countP_append, List.countP_singleton, ← hzero]
  by_cases hkey : line.key = key
  · simp only [hkey, decide_true, if_true, true_implies]
    omega
  · simp [hkey]

theorem allProper_concat : AllProper (lines ++ [line]) ↔ AllProper lines ∧ '=' ∈ line.content ∧
    (line.key ∈ onceKeys → ∀ earlier ∈ lines, earlier.key ≠ line.key) ∧
    (line.key = "reward" → line.DeclaresReward) := by
  constructor
  · intro h
    have hmem : line ∈ lines ++ [line] := List.mem_append_right _ (List.mem_singleton_self line)
    have honce key (hkey : key ∈ onceKeys) := countP_concat key |>.mp (h.once key hkey)
    refine ⟨⟨fun l hl => h.options l (List.mem_append_left _ hl),
      fun key hkey => (honce key hkey).1, fun l hl => h.rewards l (List.mem_append_left _ hl)⟩,
      h.options line hmem, fun hkey => (honce _ hkey).2 rfl, h.rewards line hmem⟩
  · rintro ⟨h, heq, honce, hreward⟩
    refine ⟨?_, fun key hkey => ?_, ?_⟩
    · simpa [or_imp, forall_and] using ⟨h.options, heq⟩
    · refine countP_concat key |>.mpr ⟨h.once key hkey, ?_⟩
      rintro rfl
      exact honce hkey
    · simpa [or_imp, forall_and] using ⟨h.rewards, hreward⟩

/-- No line offends exactly if all are proper. -/
theorem clean_iff : Clean lines ↔ AllProper lines := by
  induction lines using List.reverseRecOn with
  | nil => exact ⟨fun _ => ⟨by simp, by simp, by simp⟩, fun _ => clean_nil⟩
  | append_singleton lines line ih =>
    rw [clean_concat, ih, not_offends_iff, allProper_concat]

namespace QuestDraft

theorem read_of_clean (h : Clean lines) :
    lines.foldlM take (ofLines []) = .ok (ofLines lines) := by
  induction lines using List.reverseRecOn with
  | nil => rfl
  | append_singleton lines line ih =>
    obtain ⟨hclean, hlast⟩ := clean_concat.mp h
    rw [List.foldlM_append, ih hclean]
    show (List.foldlM take (ofLines lines) [line]) = _
    rw [List.foldlM_cons, take_of_not_offends hlast]
    rfl

theorem read_of_firstOffence (h : FirstOffence lines e) :
    lines.foldlM take (ofLines []) = .error e := by
  obtain ⟨before, line, after, rfl, hclean, he⟩ := h
  rw [List.foldlM_append, read_of_clean hclean]
  show (List.foldlM take (ofLines before) (line :: after)) = _
  rw [List.foldlM_cons, take_of_offends he]
  rfl

end QuestDraft

/-! ## The whole text -/

/-- A key on at most one line has the value of that line. -/
theorem given?_eq_some {key : String} (honce : lines.countP (·.key = key) ≤ 1)
    (hmem : line ∈ lines) (hkey : line.key = key) : given? key lines = some line.value := by
  have hfilter : line ∈ lines.filter (·.key = key) := List.mem_filter.mpr ⟨hmem, by simp [hkey]⟩
  rw [List.countP_eq_length_filter] at honce
  rw [given?, ← List.head?_filter]
  match hl : lines.filter (·.key = key) with
  | [] => simp [hl] at hfilter
  | [first] =>
    rw [hl, List.mem_singleton] at hfilter
    rw [hl, hfilter]
    rfl
  | _ :: _ :: _ =>
    rw [hl] at honce
    simp at honce

/-- Of an option that is given at most once, the value counts unless it is empty. -/
theorem filter_given? {key : String} (honce : lines.countP (·.key = key) ≤ 1) :
    (given? key lines).filter (· ≠ "") =
      if Gives lines key then some ((given? key lines).getD "") else none := by
  split
  next h =>
    obtain ⟨line, hmem, hkey, hvalue⟩ := h
    rw [given?_eq_some honce hmem hkey]
    simp [hvalue]
  next h =>
    rw [Option.filter_eq_none_iff]
    intro value hgiven
    obtain ⟨line, hfind, rfl⟩ := Option.map_eq_some_iff.mp hgiven
    have hkey : line.key = key := by simpa using List.find?_some hfind
    simpa using fun hvalue => h ⟨line, List.mem_of_find?_eq_some hfind, hkey, hvalue⟩

theorem QuestDraft.finish_ofLines (h : AllProper lines) : (ofLines lines).finish =
    if Gives lines "name" then
      if Gives lines "state" then .ok (QuestFile.ofLines lines)
      else .error (.missingKey "state")
    else .error (.missingKey "name") := by
  have hname := filter_given? (h.once "name" (by decide))
  have hstate := filter_given? (h.once "state" (by decide))
  rw [finish]
  dsimp only [ofLines]
  rw [hname, hstate]
  split_ifs <;> rfl

theorem wellFormed_iff :
    WellFormed lines ↔ AllProper lines ∧ Gives lines "name" ∧ Gives lines "state" :=
  ⟨fun h => ⟨h.toAllProper, h.named, h.tracked⟩, fun ⟨h, hname, hstate⟩ => ⟨h, hname, hstate⟩⟩

/-- Clean lines fail at their end exactly if something lacks in them. -/
theorem QuestDraft.finish_error_iff (h : AllProper lines) :
    (ofLines lines).finish = .error e ↔ Lacks lines e := by
  rw [finish_ofLines h]
  constructor
  · intro he
    split_ifs at he with hname hstate
    · obtain rfl := Except.error.inj he
      exact .state hname hstate
    · obtain rfl := Except.error.inj he
      exact .name hname
  · rintro (hname | ⟨hname, hstate⟩)
    · rw [if_neg hname]
    · rw [if_pos hname, if_neg hstate]

/-- Clean lines make a quest file exactly if nothing lacks in them. -/
theorem QuestDraft.finish_ok_iff (h : AllProper lines) {q : QuestFile} :
    (ofLines lines).finish = .ok q ↔ WellFormed lines ∧ q = QuestFile.ofLines lines := by
  rw [finish_ofLines h, wellFormed_iff]
  split_ifs with hname hstate
  · simp [h, hname, hstate, eq_comm]
  · simp [hstate]
  · simp [hname]

theorem FirstOffence.not_clean (h : FirstOffence lines e) : ¬ Clean lines := by
  obtain ⟨before, line, after, hl, -, he⟩ := h
  exact fun hclean => hclean before line after e hl he

namespace QuestFile

/-- Reading a quest file implements its format.  A text gives a quest file exactly if its
significant lines are well formed, and then the one that they describe.  Every other text fails with
the offence of the first line that offends or, where no line does, with a missing name or, if there
is a name, a missing state. -/
theorem parse_implements_format (text : String) :
    (∀ q, (parse text).value = .ok q ↔
      WellFormed (significantLines text) ∧ q = ofLines (significantLines text)) ∧
    (∀ e, (parse text).value = .error e ↔
      FirstOffence (significantLines text) e ∨
        Clean (significantLines text) ∧ Lacks (significantLines text) e) := by
  rw [value_parse]
  generalize significantLines text = lines
  rcases clean_or_firstOffence lines with hclean | ⟨first, hfirst⟩
  · have hproper := clean_iff.mp hclean
    rw [QuestDraft.read_of_clean hclean]
    refine ⟨fun q => QuestDraft.finish_ok_iff hproper, fun e => ?_⟩
    rw [Except.bind, QuestDraft.finish_error_iff hproper]
    exact ⟨fun h => .inr ⟨hclean, h⟩, fun h => h.elim (absurd hclean ·.not_clean) And.right⟩
  · have hread := QuestDraft.read_of_firstOffence hfirst
    rw [hread]
    refine ⟨fun q => ⟨nofun, fun h => ?_⟩, fun e => ⟨fun h => ?_, ?_⟩⟩
    · exact absurd (clean_iff.mpr h.1.toAllProper) hfirst.not_clean
    · obtain rfl := Except.error.inj h
      exact .inl hfirst
    · rintro (h | ⟨hclean, -⟩)
      · rw [← hread, QuestDraft.read_of_firstOffence h]
        rfl
      · exact absurd hclean hfirst.not_clean

/-- A duplicate counts even where the first value is empty, before anything that is missing. -/
example : (parse "# hunt\r\n\r\n name =\r\nreward = Xp: a:b = c\nname = hunt").value =
    .error (.duplicateKey 5 "name") := by
  decide +kernel

end QuestFile

end QuestFormula
