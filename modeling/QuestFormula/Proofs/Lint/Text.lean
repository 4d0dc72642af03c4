import QuestFormula.Lint.Render
import QuestFormula.Proofs.Lint.Directory
import QuestFormula.Proofs.Lint.Messages

/-! The text of a lint report against its totals.  The report counts in one pass over the files and
is written in another; `LintLine` names the lines by what they say, and `LintLine.ofFile` gives them
for a quest file as it was read.  The text is these lines and the totals, each ended by a line feed
and by no other, so that counting the lines that say errors and warnings gives the totals. -/

namespace QuestFormula

/-- A line of the text of a lint report: a file and what is wrong with it, a declaration with the
names in its formula if it is one, what is wrong with the formula, a warning, or the totals. -/
inductive LintLine where
  | file (path : String)
  | fileError (e : QuestFileError)
  | declaration (r : RewardLine) (names : Option (List String))
  | formulaError (e : FormulaError)
  | warning (w : LintWarning)
  | totals (files errors warnings : Nat)

/-- The rewards that a file declares, as far as it could be read. -/
def declared : Except QuestFileError QuestFile → List RewardLine
  | .error _ => []
  | .ok q => q.rewards

namespace LintLine

/-- A declaration with its line. -/
def source (r : RewardLine) : String := s!"  line {r.line}: {r.rewardType} = {r.formula}"

def text : LintLine → String
  | file path => path
  | fileError e => "  error: " ++ e.message
  | declaration r none => source r
  | declaration r (some []) => source r ++ "  [constant]"
  | declaration r (some names) => source r ++ "  [" ++ ", ".intercalate names ++ "]"
  | formulaError e => "    error: " ++ e.message
  | warning w => "    warning: " ++ w.message
  | totals files errors warnings => s!"{files} templates, {errors} errors, {warnings} warnings"

def isError : LintLine → Bool
  | fileError _ | formulaError _ => true
  | _ => false

def isWarning : LintLine → Bool
  | warning _ => true
  | _ => false

def path? : LintLine → Option String
  | file path => some path
  | _ => none

def reward? : LintLine → Option RewardLine
  | declaration r _ => some r
  | _ => none

/-- The lines about a declaration: its own, its error if the formula is none, and its warnings. -/
def ofReward (r : RewardLine) : List LintLine :=
  (match parse r.formula with
    | .error e => [declaration r none, formulaError e]
    | .ok expr => [declaration r (some expr.variableNames)]) ++
    (lintReward r).warnings.map warning

/-- The lines about a file: its own, and its error or those about its declarations. -/
def ofFile (read : String × Except QuestFileError QuestFile) : List LintLine :=
  file read.1 :: match read.2 with
    | .error e => [fileError e]
    | .ok q => q.rewards.flatMap ofReward

/-! ### What is written -/

theorem lines_lintReward (r : RewardLine) : (lintReward r).lines = (ofReward r).map text := by
  have hwarnings : (lintReward r).warnings.map (fun w => "    warning: " ++ w.message) =
      ((lintReward r).warnings.map warning).map text := by
    rw [List.map_map]
    rfl
  rw [ofReward, List.map_append, ← hwarnings, FormulaReport.lines]
  cases hparse : parse r.formula with
  | error e =>
    simp only [lintReward, hparse]
    rfl
  | ok expr =>
    simp only [lintReward, hparse]
    cases expr.variableNames with
    | nil => rfl
    | cons name names => rfl

theorem lines_lintTemplate (path : String) (read : Except QuestFileError QuestFile) :
    (lintTemplate path read).lines = (ofFile (path, read)).map text := by
  cases read with
  | error e => rfl
  | ok q =>
    show path :: (q.rewards.map lintReward).flatMap (·.lines) =
      path :: (q.rewards.flatMap ofReward).map text
    rw [List.flatMap_map, List.map_flatMap]
    simp only [lines_lintReward]

theorem lines_lintFiles (files : List (String × Except QuestFileError QuestFile)) :
    let report := lintFiles files
    report.lines = (files.flatMap ofFile ++
      [totals report.templates.length report.errors report.warnings]).map text := by
  intro report
  rw [LintReport.lines, List.map_append, List.map_flatMap,
    show report.templates = _ from (lintFiles_spec files).1, List.flatMap_map]
  simp only [lines_lintTemplate]
  rfl

/-! ### Lines of the text -/

theorem warnings_lintReward_sublist (r : RewardLine) :
    (lintReward r).warnings.Sublist [.notBuiltin r.rewardType, .nonFiniteConstant] := by
  rw [lintReward]
  cases parse r.formula with
  | error e =>
    dsimp only
    split_ifs <;> simp
  | ok expr =>
    dsimp only
    split_ifs <;> simp

theorem oneLine_of_mem_warnings {r : RewardLine} (h : OneLine r.rewardType) :
    ∀ w ∈ (lintReward r).warnings, OneLine w.message := by
  have hmessage : ∀ w ∈ [LintWarning.notBuiltin r.rewardType, .nonFiniteConstant],
      OneLine w.message := by
    rw [OneLine] at h
    simp [LintWarning.message.eq_def, OneLine, toString, h]
  exact fun w hw => hmessage w ((warnings_lintReward_sublist r).subset hw)

theorem oneLine_ofReward {r : RewardLine} (htype : OneLine r.rewardType)
    (hformula : OneLine r.formula) : ∀ line ∈ ofReward r, OneLine line.text := by
  have hsource : OneLine (source r) := by
    rw [OneLine] at htype hformula
    simp [source, OneLine, toString, htype, hformula]
  intro line hline
  rcases List.mem_append.mp hline with hline | hline
  · cases hparse : parse r.formula with
    | error e =>
      have hmessage := oneLine_of_parse_error hparse hformula
      simp only [hparse, List.mem_cons, List.not_mem_nil, or_false] at hline
      rcases hline with rfl | rfl
      · exact hsource
      · exact oneLine_append.mpr ⟨by simp [OneLine], hmessage⟩
    | ok expr =>
      have hnames := oneLine_intercalate ", " (by simp [OneLine])
        (oneLine_of_mem_variableNames hparse)
      simp only [hparse, List.mem_singleton] at hline
      subst hline
      cases hlist : expr.variableNames with
      | nil => exact oneLine_append.mpr ⟨hsource, by simp [OneLine]⟩
      | cons name names =>
        rw [hlist] at hnames
        show OneLine (source r ++ "  [" ++ ", ".intercalate (name :: names) ++ "]")
        simp only [oneLine_append, hsource, hnames, true_and]
        simp [OneLine]
  · obtain ⟨w, hw, rfl⟩ := List.mem_map.mp hline
    exact oneLine_append.mpr ⟨by simp [OneLine], oneLine_of_mem_warnings htype w hw⟩

theorem oneLine_ofFile {read : String × Except QuestFileError QuestFile} (hpath : OneLine read.1)
    (herror : ∀ e, read.2 = .error e → OneLine e.message)
    (hrewards : InLineOrder (declared read.2)) :
    ∀ line ∈ ofFile read, OneLine line.text := by
  obtain ⟨path, e | q⟩ := read
  · have hmessage : OneLine (fileError e).text :=
      oneLine_append.mpr ⟨by simp [OneLine], herror e rfl⟩
    exact List.forall_mem_cons.mpr ⟨hpath, List.forall_mem_singleton.mpr hmessage⟩
  · refine List.forall_mem_cons.mpr ⟨hpath, fun line hline => ?_⟩
    obtain ⟨r, hr, hline⟩ := List.mem_flatMap.mp hline
    exact oneLine_ofReward (hrewards.rewardType r hr) (hrewards.formula r hr) line hline

/-! ### Lines by what they say -/

theorem counts_ofReward (r : RewardLine) :
    (ofReward r).countP isError = (if (parse r.formula).isOk then 0 else 1) ∧
    (ofReward r).countP isWarning = (lintReward r).warnings.length ∧
    (ofReward r).filterMap path? = [] ∧ (ofReward r).filterMap reward? = [r] := by
  have hwarnings : ((lintReward r).warnings.map warning).countP isError = 0 ∧
      ((lintReward r).warnings.map warning).countP isWarning = (lintReward r).warnings.length ∧
      ((lintReward r).warnings.map warning).filterMap path? = [] ∧
      ((lintReward r).warnings.map warning).filterMap reward? = [] := by
    simp [List.countP_map, List.filterMap_map, Function.comp_def, isError, isWarning, path?,
      reward?]
  obtain ⟨herror, hwarning, hpath, hreward⟩ := hwarnings
  simp only [ofReward, List.countP_append, List.filterMap_append, herror, hwarning, hpath, hreward]
  cases parse r.formula with
  | error e => exact ⟨rfl, Nat.zero_add _, rfl, rfl⟩
  | ok expr => exact ⟨rfl, Nat.zero_add _, rfl, rfl⟩

theorem counts_flatMap_ofReward (rewards : List RewardLine) :
    (rewards.flatMap ofReward).countP isError = rewards.countP (fun r => !(parse r.formula).isOk) ∧
    (rewards.flatMap ofReward).countP isWarning =
      (rewards.map fun r => (lintReward r).warnings.length).sum ∧
    (rewards.flatMap ofReward).filterMap path? = [] ∧
    (rewards.flatMap ofReward).filterMap reward? = rewards := by
  induction rewards with
  | nil => exact ⟨rfl, rfl, rfl, rfl⟩
  | cons r rewards ih =>
    obtain ⟨herrors, hwarnings, hpaths, hrewards⟩ := ih
    obtain ⟨herror, hwarning, hpath, hreward⟩ := counts_ofReward r
    simp only [List.flatMap_cons, List.countP_append, List.filterMap_append, herrors, hwarnings,
      hpaths, hrewards, herror, hwarning, hpath, hreward]
    refine ⟨?_, rfl, rfl, rfl⟩
    rw [List.countP_cons, Nat.add_comm]
    cases (parse r.formula).isOk <;> rfl

theorem counts_ofFile (read : String × Except QuestFileError QuestFile) :
    (ofFile read).countP isError = (if read.2.isOk then 0 else 1) +
      (declared read.2).countP (fun r => !(parse r.formula).isOk) ∧
    (ofFile read).countP isWarning =
      ((declared read.2).map fun r => (lintReward r).warnings.length).sum ∧
    (ofFile read).filterMap path? = [read.1] ∧
    (ofFile read).filterMap reward? = declared read.2 := by
  obtain ⟨path, e | q⟩ := read
  · exact ⟨rfl, rfl, rfl, rfl⟩
  · obtain ⟨herrors, hwarnings, hpaths, hrewards⟩ := counts_flatMap_ofReward q.rewards
    refine ⟨?_, hwarnings, congrArg (path :: ·) hpaths, hrewards⟩
    exact herrors.trans (Nat.zero_add _).symm

/-- The lines about files, by what they say. -/
theorem counts_flatMap_ofFile (files : List (String × Except QuestFileError QuestFile)) :
    let declarations := files.flatMap fun file => declared file.2
    (files.flatMap ofFile).countP isError = files.countP (fun file => !file.2.isOk) +
      declarations.countP (fun r => !(parse r.formula).isOk) ∧
    (files.flatMap ofFile).countP isWarning =
      (declarations.map fun r => (lintReward r).warnings.length).sum ∧
    (files.flatMap ofFile).filterMap path? = files.map Prod.fst ∧
    (files.flatMap ofFile).filterMap reward? = declarations := by
  induction files with
  | nil => exact ⟨rfl, rfl, rfl, rfl⟩
  | cons read files ih =>
    obtain ⟨herrors, hwarnings, hpaths, hrewards⟩ := ih
    obtain ⟨herror, hwarning, hpath, hreward⟩ := counts_ofFile read
    simp only [List.flatMap_cons, List.countP_append, List.filterMap_append, List.map_append,
      List.sum_append, herrors, hwarnings, hpaths, hrewards, herror, hwarning, hpath, hreward]
    refine ⟨?_, trivial, rfl, trivial⟩
    rw [List.countP_cons]
    cases read.2.isOk <;> simp only [Bool.not_true, Bool.not_false, Bool.false_eq_true, if_true,
      if_false] <;> omega

end LintLine

/-! ### The totals -/

theorem isError_lintReward (r : RewardLine) : (lintReward r).isError = !(parse r.formula).isOk := by
  rw [lintReward]
  cases parse r.formula with
  | error e => rfl
  | ok expr => rfl

/-- The report on a file counts the lines about it. -/
theorem counts_lintTemplate (read : String × Except QuestFileError QuestFile) :
    (lintTemplate read.1 read.2).errorCount = (LintLine.ofFile read).countP (·.isError) ∧
    (lintTemplate read.1 read.2).warningCount = (LintLine.ofFile read).countP (·.isWarning) ∧
    (lintTemplate read.1 read.2).formulas.map (·.reward) = declared read.2 := by
  obtain ⟨herrors, hwarnings, -⟩ := LintLine.counts_ofFile read
  rw [herrors, hwarnings]
  obtain ⟨path, e | q⟩ := read
  · exact ⟨rfl, rfl, rfl⟩
  · show 0 + (q.rewards.map lintReward).countP (·.isError) = _ ∧
      ((q.rewards.map lintReward).map (·.warnings.length)).sum = _ ∧
      (q.rewards.map lintReward).map (·.reward) = q.rewards
    simp only [List.countP_map, List.map_map, Function.comp_def, isError_lintReward,
      reward_lintReward, List.map_id', and_true]
    exact ⟨rfl, rfl⟩

/-- The totals of the report are the numbers of lines of their kinds. -/
theorem counts_lintFiles (files : List (String × Except QuestFileError QuestFile)) :
    (lintFiles files).errors = (files.flatMap LintLine.ofFile).countP (·.isError) ∧
    (lintFiles files).warnings = (files.flatMap LintLine.ofFile).countP (·.isWarning) := by
  obtain ⟨htemplates, herrors, hwarnings⟩ := lintFiles_spec files
  rw [herrors, hwarnings, htemplates, List.countP_flatMap, List.countP_flatMap, List.map_map,
    List.map_map]
  constructor
  · exact congrArg List.sum (List.map_congr_left fun read _ => (counts_lintTemplate read).1)
  · exact congrArg List.sum (List.map_congr_left fun read _ => (counts_lintTemplate read).2.1)

theorem isClean_iff_isOk {files : List (String × Except QuestFileError QuestFile)} :
    (lintFiles files).isClean = true ↔ (∀ file ∈ files, file.2.isOk) ∧
      ∀ r ∈ files.flatMap fun file => declared file.2, (parse r.formula).isOk := by
  rw [LintReport.isClean, beq_iff_eq, (counts_lintFiles files).1,
    (LintLine.counts_flatMap_ofFile files).1, Nat.add_eq_zero_iff, List.countP_eq_zero,
    List.countP_eq_zero]
  simp

/-- Lines that are each ended by a line feed, and have no other, are the pieces between them. -/
theorem splitOn_join {lines : List String} (h : ∀ line ∈ lines, OneLine line) :
    (String.join (lines.map (· ++ "\n"))).toList.splitOn '\n' =
      lines.map String.toList ++ [[]] := by
  have hjoin : (String.join (lines.map (· ++ "\n"))).toList =
      ['\n'].intercalate (lines.map String.toList ++ [[]]) := by
    rw [String.toList_join, List.flatMap_map]
    induction lines with
    | nil => rfl
    | cons line lines ih =>
      have hne : lines.map String.toList ++ [[]] ≠ [] := by simp
      obtain ⟨next, rest, hrest⟩ := List.exists_cons_of_ne_nil hne
      rw [List.flatMap_cons, ih (List.forall_mem_cons.mp h).2, List.map_cons, List.cons_append,
        hrest, List.intercalate_cons_cons, String.toList_append]
      rfl
  rw [hjoin]
  refine List.splitOn_intercalate '\n' (fun piece hpiece => ?_) (by simp)
  rcases List.mem_append.mp hpiece with hpiece | hpiece
  · obtain ⟨line, hline, rfl⟩ := List.mem_map.mp hpiece
    exact h line hline
  · rw [List.mem_singleton.mp hpiece]
    exact List.not_mem_nil

/-- The pieces of the text between line feeds are its lines and, after the last one, nothing. -/
theorem splitOn_text_lintFiles {files : List (String × Except QuestFileError QuestFile)}
    (h : ∀ line ∈ files.flatMap LintLine.ofFile, OneLine line.text) :
    let report := lintFiles files
    report.text.toList.splitOn '\n' = (files.flatMap LintLine.ofFile ++
      [LintLine.totals report.templates.length report.errors report.warnings]).map
        (·.text.toList) ++ [[]] := by
  intro report
  have hlines : ∀ line ∈ report.lines, OneLine line := by
    rw [LintLine.lines_lintFiles]
    refine List.forall_mem_map.mpr fun line hline => ?_
    rcases List.mem_append.mp hline with hline | hline
    · exact h line hline
    · rw [List.mem_singleton.mp hline]
      simp [LintLine.text, OneLine, toString]
  rw [LintReport.text, splitOn_join hlines, LintLine.lines_lintFiles, List.map_map]
  rfl

/-! ### Lines by how they begin -/

/-- The line begins as those do that say an error. -/
def looksLikeError (line : List Char) : Bool :=
  "  error: ".toList.isPrefixOf line || "    error: ".toList.isPrefixOf line

def looksLikeWarning (line : List Char) : Bool := "    warning: ".toList.isPrefixOf line

namespace LintLine

/-- Only a path can begin as something that it is not. -/
theorem looksLike_text {line : LintLine} (h : line.path? = none) :
    looksLikeError line.text.toList = line.isError ∧
      looksLikeWarning line.text.toList = line.isWarning := by
  have hsource (r : RewardLine) (rest : String) :
      looksLikeError (source r ++ rest).toList = false ∧
        looksLikeWarning (source r ++ rest).toList = false := by
    simp [looksLikeError, looksLikeWarning, source, toString, List.isPrefixOf_cons_cons]
  cases line with
  | file path => cases h
  | fileError e | formulaError e | warning w =>
    simp [looksLikeError, looksLikeWarning, text, isError, isWarning, List.isPrefixOf_cons_cons]
  | declaration r names =>
    match names with
    | none =>
      have hempty := hsource r ""
      rwa [String.append_empty] at hempty
    | some [] => exact hsource r "  [constant]"
    | some (name :: names) =>
      have hnames := hsource r ("  [" ++ (", ".intercalate (name :: names) ++ "]"))
      rwa [← String.append_assoc, ← String.append_assoc] at hnames
  | totals files errors warnings =>
    -- The totals begin with a digit.
    obtain ⟨first, tail, hdigits⟩ :=
      List.exists_cons_of_ne_nil (Nat.toDigits_ne_nil (n := files) (b := 10))
    have hfirst : first.isDigit := Nat.isDigit_of_mem_toDigits (n := files) (by decide) (by decide)
      (hdigits ▸ List.mem_cons_self)
    have hblank : ' ' ≠ first := by
      rintro rfl
      cases hfirst
    simp [looksLikeError, looksLikeWarning, text, isError, isWarning, toString, hdigits,
      List.isPrefixOf_cons_cons, hblank]

/-- Lines that begin in some way are those of a kind, and paths that happen to. -/
theorem countP_looksLike {looksLike : List Char → Bool} {kind : LintLine → Bool}
    (hpath : ∀ path, kind (file path) = false)
    (h : ∀ line : LintLine, line.path? = none → looksLike line.text.toList = kind line)
    (lines : List LintLine) :
    lines.countP (fun line => looksLike line.text.toList) =
      lines.countP kind + (lines.filterMap path?).countP fun path => looksLike path.toList := by
  induction lines with
  | nil => rfl
  | cons line lines ih =>
    rw [List.countP_cons, List.countP_cons, List.filterMap_cons, ih]
    cases hline : line.path? with
    | none =>
      rw [h line hline]
      dsimp only
      omega
    | some path =>
      cases line with
      | file path' =>
        obtain rfl := Option.some.inj hline
        rw [List.countP_cons, hpath]
        show _ + (if looksLike path'.toList = true then 1 else 0) = _
        simp only [Bool.false_eq_true, if_false]
        omega
      | fileError | declaration | formulaError | warning | totals => cases hline

end LintLine

/-! ### The report on a directory -/

theorem inLineOrder_declared {directory : String} {entries : Entries}
    {file : String × Except QuestFileError QuestFile}
    (h : file ∈ (QuestFile.loadEntries directory entries).value) :
    InLineOrder (declared file.2) := by
  obtain ⟨e, -, rfl⟩ := QuestFile.mem_loadEntries h
  dsimp only
  cases hread : (QuestFile.ofText (joinPath directory e.1) e.2.text).value with
  | error error => exact ⟨.nil, nofun, nofun⟩
  | ok q => exact QuestFile.inLineOrder_of_ofText hread

/-- With paths and messages of the system on one line each, every line of the text is. -/
theorem oneLine_of_mem_files {directory : String} {entries : Entries}
    (hpaths : ∀ path ∈ QuestFile.paths directory entries, OneLine path)
    (hsystem : ∀ e ∈ QuestFile.candidates entries, ∀ message,
      e.2.text = .error (.other message) → OneLine message) :
    ∀ line ∈ (QuestFile.loadEntries directory entries).value.flatMap LintLine.ofFile,
      OneLine line.text := by
  intro line hline
  obtain ⟨file, hfile, hline⟩ := List.mem_flatMap.mp hline
  have hpath : OneLine file.1 := by
    refine hpaths _ ?_
    rw [← QuestFile.map_fst_loadEntries]
    exact List.mem_map_of_mem hfile
  refine LintLine.oneLine_ofFile hpath (fun error herror => ?_) (inLineOrder_declared hfile) line
    hline
  obtain ⟨e, he, rfl⟩ := QuestFile.mem_loadEntries hfile
  exact QuestFile.oneLine_of_ofText_error herror hpath (hsystem e he)

/-- The report on a directory, its totals and its text agree, whatever the directory holds, as long
as paths and the messages of the system for unreadable files are on one line each.  The report has
every quest file in the order of the paths and its declarations in the order of the file.  It counts
an error for each file that cannot be used and for each declaration whose formula is none, and it is
clean exactly if there is neither.  The text has the lines about each file in the same order, each
error below what it is about, then the totals, and no others; so as many lines as the totals say are
errors and warnings, and no more begin like these but for such paths. -/
theorem lint_text_agrees (directory : String) (entries : Entries)
    (hpaths : ∀ path ∈ QuestFile.paths directory entries, OneLine path)
    (hsystem : ∀ e ∈ QuestFile.candidates entries, ∀ message,
      e.2.text = .error (.other message) → OneLine message) :
    let paths := QuestFile.paths directory entries
    let files := (QuestFile.loadEntries directory entries).value
    let declarations := files.flatMap fun file => declared file.2
    ∃ report, lintDirectory directory (.ok entries) = .ok report ∧
      let lines := files.flatMap LintLine.ofFile ++
        [LintLine.totals report.templates.length report.errors report.warnings]
      let pieces := report.text.toList.splitOn '\n'
      (report.templates.map (·.path) = paths ∧ paths.Pairwise (· ≤ ·)) ∧
      (report.templates.map (fun t => t.formulas.map (·.reward)) =
          files.map (fun file => declared file.2) ∧
        ∀ file ∈ files, (declared file.2).Pairwise fun r r' => r.line < r'.line) ∧
      (report.errors = files.countP (fun file => !file.2.isOk) +
          declarations.countP (fun r => !(parse r.formula).isOk) ∧
        report.warnings = (declarations.map fun r => (lintReward r).warnings.length).sum) ∧
      (report.isClean = true ↔ (∀ file ∈ files, file.2.isOk) ∧
        ∀ r ∈ declarations, (parse r.formula).isOk) ∧
      pieces = lines.map (·.text.toList) ++ [[]] ∧
      (lines.filterMap (·.path?) = paths ∧ lines.filterMap (·.reward?) = declarations) ∧
      (lines.countP (·.isError) = report.errors ∧ lines.countP (·.isWarning) = report.warnings) ∧
      pieces.countP looksLikeError =
        report.errors + paths.countP (fun path => looksLikeError path.toList) ∧
      pieces.countP looksLikeWarning =
        report.warnings + paths.countP (fun path => looksLikeWarning path.toList) := by
  intro paths files declarations
  refine ⟨lintFiles files, rfl, ?_⟩
  intro lines pieces
  have hfiles : files.map Prod.fst = paths := QuestFile.map_fst_loadEntries directory entries
  have htemplates : (lintFiles files).templates = _ := (lintFiles_spec files).1
  obtain ⟨hcounted, hcounted'⟩ := counts_lintFiles files
  obtain ⟨hfaults, hwarned, hpath, hreward⟩ := LintLine.counts_flatMap_ofFile files
  -- The totals are a line of no other kind.
  have herrors : lines.countP (·.isError) = (lintFiles files).errors := by
    rw [List.countP_append, hcounted]
    rfl
  have hwarnings : lines.countP (·.isWarning) = (lintFiles files).warnings := by
    rw [List.countP_append, hcounted']
    rfl
  have hpaths' : lines.filterMap (·.path?) = paths := by
    rw [List.filterMap_append, hpath, ← hfiles]
    exact List.append_nil _
  have hpieces : pieces = lines.map (·.text.toList) ++ [[]] :=
    splitOn_text_lintFiles (oneLine_of_mem_files hpaths hsystem)
  refine ⟨⟨?_, QuestFile.pairwise_le_paths directory entries⟩, ⟨?_, fun file hfile =>
    (inLineOrder_declared hfile).ordered⟩, ⟨hcounted.trans hfaults, hcounted'.trans hwarned⟩,
    isClean_iff_isOk, hpieces, ⟨hpaths', ?_⟩, ⟨herrors, hwarnings⟩, ?_, ?_⟩
  · rw [htemplates, List.map_map, ← hfiles]
    exact List.map_congr_left fun file _ => path_lintTemplate file.1 file.2
  · rw [htemplates, List.map_map]
    exact List.map_congr_left fun file _ => (counts_lintTemplate file).2.2
  · rw [List.filterMap_append, hreward]
    exact List.append_nil _
  · rw [hpieces, List.countP_append, List.countP_map, ← herrors, ← hpaths']
    exact LintLine.countP_looksLike (fun _ => rfl)
      (fun _ h => (LintLine.looksLike_text h).1) lines
  · rw [hpieces, List.countP_append, List.countP_map, ← hwarnings, ← hpaths']
    exact LintLine.countP_looksLike (fun _ => rfl)
      (fun _ h => (LintLine.looksLike_text h).2) lines

/-- A file that is no quest file, and a declaration of an unknown type that is no formula. -/
theorem lint_text_agrees_hunt :
    let file (text : String) : FileNode := .file (.ok text)
    let entries : Entries := [("broken.quest", file "hunt"),
      ("hunt.quest", file "name = hunt\nstate = hunts\nreward = GoldReward: 1 +")]
    ∃ report, lintDirectory "quests" (.ok entries) = .ok report ∧ report.errors = 2 ∧
      report.warnings = 1 ∧ (report.text.toList.splitOn '\n').countP looksLikeError = 2 := by
  intro file entries
  have hfiles : (QuestFile.loadEntries "quests" entries).value =
      (QuestFile.loadAll "quests" entries).value :=
    QuestFile.value_loadEntries "quests" (by decide +kernel) (by decide +kernel)
  have hpaths : QuestFile.paths "quests" entries =
      ["quests/broken.quest", "quests/hunt.quest"] := by
    rw [← QuestFile.map_fst_loadEntries, hfiles]
    decide +kernel
  have hsystem : ∀ e ∈ QuestFile.candidates entries, ∀ message,
      e.2.text = .error (.other message) → OneLine message := by
    intro e he message hfault
    have hmem : e ∈ entries := List.mem_of_mem_filter ((List.mergeSort_perm _ _).subset he)
    rcases List.mem_cons.mp hmem with rfl | hmem
    · cases hfault
    · rw [List.mem_singleton.mp hmem] at hfault
      cases hfault
  obtain ⟨report, hreport, -, -, ⟨herrors, hwarnings⟩, -, -, -, -, hlook, -⟩ :=
    lint_text_agrees "quests" entries (by rw [hpaths]; decide) hsystem
  rw [hfiles] at herrors hwarnings
  rw [hpaths] at hlook
  have herrors' : report.errors = 2 := herrors.trans (by decide +kernel)
  refine ⟨report, hreport, herrors', hwarnings.trans (by decide +kernel), ?_⟩
  rw [hlook, herrors']
  decide +kernel

end QuestFormula
