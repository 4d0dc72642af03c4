import QuestFormula.Proofs.Lint.Compilation
import QuestFormula.Proofs.Quest.Directory

/-! The lint of a directory beside its load.  Both read the same files, and what the lint says of a
file, which knows no state type, decides part of what the loader makes of it: a file with an error
is refused with that error, and a declaration with an error is disabled for it, or for its reward
type where that is not registered.  `LoadsAs` states this of one file, and a clean load is shown to
leave the lint nothing to say. -/

namespace QuestFormula

/-! ### Reports on files -/

namespace TemplateReport

/-- What the report says against the file as a whole. -/
def error? (t : TemplateReport) : Option String :=
  match t.result with
  | .error e => some e.message
  | .ok _ => none

/-- The reports on the declarations of the file. -/
def formulas (t : TemplateReport) : List FormulaReport :=
  match t.result with
  | .error _ => []
  | .ok contents => contents.formulas

def errorCount (t : TemplateReport) : Nat :=
  (if t.error?.isSome then 1 else 0) + t.formulas.countP (·.isError)

def warningCount (t : TemplateReport) : Nat := (t.formulas.map (·.warnings.length)).sum

end TemplateReport

theorem FormulaReport.isError_eq (f : FormulaReport) : f.isError = f.error?.isSome := by
  rw [isError, error?]
  cases f.result with
  | error e => rfl
  | ok names => rfl

theorem TemplateReport.errorCount_eq_zero_iff (t : TemplateReport) :
    t.errorCount = 0 ↔ t.error? = none ∧ ∀ f ∈ t.formulas, f.error? = none := by
  rw [errorCount, Nat.add_eq_zero_iff, List.countP_eq_zero]
  simp [FormulaReport.isError_eq]

namespace LintReport

theorem foldl_count (r : LintReport) (fs : List FormulaReport) :
    (fs.foldl count r).templates = r.templates ∧
      (fs.foldl count r).errors = r.errors + fs.countP (·.isError) ∧
      (fs.foldl count r).warnings = r.warnings + (fs.map (·.warnings.length)).sum := by
  induction fs generalizing r with
  | nil => exact ⟨rfl, rfl, rfl⟩
  | cons f fs ih =>
    obtain ⟨htemplates, herrors, hwarnings⟩ := ih (r.count f)
    refine ⟨htemplates, herrors.trans ?_, hwarnings.trans ?_⟩
    · rw [List.countP_cons, Nat.add_comm (fs.countP _), ← Nat.add_assoc]
      rfl
    · rw [List.map_cons, List.sum_cons, ← Nat.add_assoc]
      rfl

theorem add_spec (r : LintReport) (t : TemplateReport) :
    (r.add t).templates = r.templates ++ [t] ∧ (r.add t).errors = r.errors + t.errorCount ∧
      (r.add t).warnings = r.warnings + t.warningCount := by
  rw [add, TemplateReport.errorCount, TemplateReport.error?, TemplateReport.warningCount,
    TemplateReport.formulas]
  cases t.result with
  | error e => exact ⟨rfl, rfl, rfl⟩
  | ok contents =>
    obtain ⟨htemplates, herrors, hwarnings⟩ := r.foldl_count contents.formulas
    exact ⟨congrArg (· ++ [t]) htemplates, herrors.trans (by simp), hwarnings⟩

end LintReport

theorem path_lintTemplate (path : String) (read : Except QuestFileError QuestFile) :
    (lintTemplate path read).path = path := by
  cases read with
  | error e => rfl
  | ok q => rfl

/-- The report on a directory has the report on each file, in order, and counts their errors and
warnings. -/
theorem lintFiles_spec (files : List (String × Except QuestFileError QuestFile)) :
    (lintFiles files).templates = files.map (fun file => lintTemplate file.1 file.2) ∧
      (lintFiles files).errors = ((lintFiles files).templates.map (·.errorCount)).sum ∧
      (lintFiles files).warnings = ((lintFiles files).templates.map (·.warningCount)).sum := by
  induction files using List.reverseRecOn with
  | nil => exact ⟨rfl, rfl, rfl⟩
  | append_singleton files file ih =>
    obtain ⟨htemplates, herrors, hwarnings⟩ := ih
    have hsplit : lintFiles (files ++ [file]) =
        (lintFiles files).add (lintTemplate file.1 file.2) := by
      rw [lintFiles, List.foldl_append]
      rfl
    obtain ⟨hadded, hcounted, hwarned⟩ :=
      (lintFiles files).add_spec (lintTemplate file.1 file.2)
    rw [hsplit, hadded, hcounted, hwarned, herrors, hwarnings, htemplates]
    simp

theorem isClean_lintFiles_iff {files : List (String × Except QuestFileError QuestFile)} :
    (lintFiles files).isClean = true ↔ ∀ file ∈ files,
      (lintTemplate file.1 file.2).error? = none ∧
        ∀ f ∈ (lintTemplate file.1 file.2).formulas, f.error? = none := by
  obtain ⟨htemplates, herrors, -⟩ := lintFiles_spec files
  rw [LintReport.isClean, beq_iff_eq, herrors, htemplates, List.sum_eq_zero_iff, List.map_map,
    List.forall_mem_map]
  exact forall₂_congr fun file _ => TemplateReport.errorCount_eq_zero_iff _

/-! ### One file -/

namespace FormulaReport

/-- The declaration disabled for a reason. -/
def disabledFor (f : FormulaReport) (quest reason : String) : DisabledReward :=
  ⟨quest, f.reward.rewardType, f.reward.formula, reason⟩

/-- The disabled reward that the report on a declaration foretells for a quest with a registry. -/
def disabled? {S : StateType} (registry : Registry S) (quest : String) (f : FormulaReport) :
    Option DisabledReward :=
  f.error?.map fun message => f.disabledFor quest
    (if registry.rewards.contains f.reward.rewardType then "Formula error: " ++ message
      else "Unknown reward type: " ++ f.reward.rewardType)

/-- What the report on a declaration foretells of it, for a quest with a registry.  A declaration of
a registered type has an error exactly if its formula is refused at parsing, and the same one; where
it has none, its formula can only be refused later, for a name or for the constructors of the type. -/
inductive Foretells {S : StateType} (registry : Registry S) (quest : String) (f : FormulaReport) :
    Except DisabledReward (TemplateReward S) → Prop
  | unregistered : registry.rewards.get? f.reward.rewardType = none →
      Foretells registry quest f
        (.error (f.disabledFor quest ("Unknown reward type: " ++ f.reward.rewardType)))
  | unparsed {R : RewardType} {error : FormulaError} :
      registry.rewards.get? f.reward.rewardType = some R →
      Descriptor.evaluator ⟨S, R, f.reward.formula⟩ = .error error → error.stage = .parsing →
      f.error? = some error.message →
      Foretells registry quest f (.error (f.disabledFor quest ("Formula error: " ++ error.message)))
  | uncompiled {R : RewardType} {error : FormulaError} :
      registry.rewards.get? f.reward.rewardType = some R →
      Descriptor.evaluator ⟨S, R, f.reward.formula⟩ = .error error → error.stage ≠ .parsing →
      f.error? = none →
      Foretells registry quest f (.error (f.disabledFor quest ("Formula error: " ++ error.message)))
  | compiled {R : RewardType} {e : Evaluator S} :
      registry.rewards.get? f.reward.rewardType = some R →
      Descriptor.evaluator ⟨S, R, f.reward.formula⟩ = .ok e → f.error? = none →
      Foretells registry quest f (.ok ⟨f.reward.rewardType, e⟩)

end FormulaReport

open Manager in
/-- What the loader makes of a file that the lint reports on, after calls of the manager.  A file
with an error fails with it.  A file without one fails only if its state type is unknown; otherwise
it is loaded, its declarations become what the lint foretells of each, and so its disabled rewards
have those with an error in the order of the file. -/
inductive LoadsAs (calls : List Call) (file : String × Except QuestFileError QuestFile)
    (report : TemplateReport) : Except (String × String) TemplateSummary → Prop
  | refused {e : QuestFileError} : file.2 = .error e → report.error? = some e.message →
      LoadsAs calls file report (.error (report.path, e.message))
  | unknownState {q : QuestFile} : file.2 = .ok q → report.error? = none →
      inForce? calls q.state = none →
      LoadsAs calls file report (.error (report.path, (QuestError.unknownState q.state).message))
  | loaded {q : QuestFile} {S : StateType} {registry : Registry S} {t : Template S}
      {entries : List (Except DisabledReward (TemplateReward S))} :
      file.2 = .ok q → report.error? = none → inForce? calls q.state = some ⟨S, registry⟩ →
      (∀ requests, t = (Template.ofFile q registry (Factory.history requests)).value.1) →
      report.formulas.map (·.reward) = q.rewards →
      List.Forall₂ (FormulaReport.Foretells registry q.name) report.formulas entries →
      t.rewards = entries.filterMap Except.toOption → t.disabled = entries.filterMap failure? →
      (report.formulas.filterMap (·.disabled? registry q.name)).Sublist t.disabled →
      LoadsAs calls file report (.ok (summarize q t))

theorem reward_lintReward (r : RewardLine) : (lintReward r).reward = r := by
  rw [lintReward]
  cases parse r.formula with
  | error e => rfl
  | ok expr => rfl

namespace FormulaReport

variable {S : StateType} {registry : Registry S} {quest : String} {f : FormulaReport}

/-- The report on a declaration foretells what becomes of it. -/
theorem foretells_entry (registry : Registry S) (quest : String) (r : RewardLine) :
    (lintReward r).Foretells registry quest (registry.entry quest r) := by
  have hreward := reward_lintReward r
  have herror {error : FormulaError} (hp : parse r.formula = .error error) :
      (lintReward r).error? = some error.message := error?_lintReward_of_error hp
  have hnone {expr : Expr} (hp : parse r.formula = .ok expr) : (lintReward r).error? = none :=
    error?_lintReward_of_ok hp
  generalize lintReward r = f at *
  subst hreward
  rw [Registry.entry]
  cases hget : registry.rewards.get? f.reward.rewardType with
  | none => exact .unregistered hget
  | some R =>
    dsimp only
    cases hp : parse f.reward.formula with
    | error error =>
      have hcompile := @Descriptor.evaluator_of_parse_error S R _ _ hp
      obtain ⟨fault, rfl⟩ := parse_eq_error hp
      rw [hcompile]
      exact .unparsed hget hcompile rfl (herror hp)
    | ok expr =>
      cases hcompile : Descriptor.evaluator ⟨S, R, f.reward.formula⟩ with
      | ok e => exact .compiled hget hcompile (hnone hp)
      | error error =>
        refine .uncompiled hget hcompile (fun hparsing => ?_) (hnone hp)
        rcases Descriptor.stage_of_evaluator hp hcompile with ⟨hstage, -⟩ | ⟨hstage, -⟩
        all_goals
          rw [hparsing] at hstage
          cases hstage

/-- A declaration with an error is disabled, for that or for its reward type. -/
theorem Foretells.failure?_of_disabled? {entry : Except DisabledReward (TemplateReward S)}
    {d : DisabledReward} (h : f.Foretells registry quest entry)
    (hd : f.disabled? registry quest = some d) : failure? entry = some d := by
  rw [disabled?, Table.contains] at hd
  cases h with
  | unregistered hget =>
    obtain ⟨message, -, rfl⟩ := Option.map_eq_some_iff.mp hd
    rw [hget]
    rfl
  | unparsed hget _ _ herror =>
    rw [hget, herror] at hd
    exact hd
  | uncompiled _ _ _ herror | compiled _ _ herror =>
    rw [herror] at hd
    cases hd

/-- A declaration of a registered type has the error with which parsing refuses its formula. -/
theorem Foretells.error?_eq_some_iff {entry : Except DisabledReward (TemplateReward S)}
    (h : f.Foretells registry quest entry) {R : RewardType}
    (hR : registry.rewards.get? f.reward.rewardType = some R) {message : String} :
    f.error? = some message ↔ ∃ error, Descriptor.evaluator ⟨S, R, f.reward.formula⟩ =
      .error error ∧ error.stage = .parsing ∧ message = error.message := by
  cases h with
  | unregistered hget =>
    rw [hR] at hget
    cases hget
  | unparsed hget hcompile hstage herror =>
    obtain rfl := Option.some.inj (hR.symm.trans hget)
    simp [herror, hcompile, hstage, eq_comm]
  | uncompiled hget hcompile hstage herror =>
    obtain rfl := Option.some.inj (hR.symm.trans hget)
    simp [herror, hcompile, hstage]
  | compiled hget hcompile herror =>
    obtain rfl := Option.some.inj (hR.symm.trans hget)
    simp [herror, hcompile]

theorem disabled_sublist {fs : List FormulaReport}
    {entries : List (Except DisabledReward (TemplateReward S))}
    (h : List.Forall₂ (Foretells registry quest) fs entries) :
    (fs.filterMap (·.disabled? registry quest)).Sublist (entries.filterMap failure?) := by
  induction h with
  | nil => exact .slnil
  | @cons f entry fs entries hf _ ih =>
    rw [List.filterMap_cons, List.filterMap_cons]
    cases hd : f.disabled? registry quest with
    | some d =>
      rw [hf.failure?_of_disabled? hd]
      exact ih.cons_cons d
    | none =>
      cases failure? entry with
      | none => exact ih
      | some d => exact ih.cons d

end FormulaReport

namespace Manager

theorem loadsAs_fileOutcome (calls : List Call)
    (file : String × Except QuestFileError QuestFile) :
    LoadsAs calls file (lintTemplate file.1 file.2)
      (fileOutcome (history calls).states file) := by
  obtain ⟨path, e | q⟩ := file
  · exact .refused rfl rfl
  · rw [fileOutcome_ok, outcome, get?_states_history]
    cases hreg : inForce? calls q.state with
    | none => exact .unknownState rfl rfl hreg
    | some reg =>
      obtain ⟨S, registry⟩ := reg
      have hforetold : List.Forall₂ (FormulaReport.Foretells registry q.name)
          (q.rewards.map lintReward) (q.rewards.map (registry.entry q.name)) := by
        rw [List.forall₂_map_left_iff, List.forall₂_map_right_iff, List.forall₂_same]
        exact fun r _ => FormulaReport.foretells_entry registry q.name r
      refine .loaded rfl rfl hreg (fun requests => ?_) ?_ hforetold rfl rfl
        (FormulaReport.disabled_sublist hforetold)
      · exact (congrArg Prod.fst
          (Template.ofFile_value (Factory.sound_history requests) q registry)).symm
      · show (q.rewards.map lintReward).map (·.reward) = q.rewards
        rw [List.map_map]
        exact List.map_id'' reward_lintReward q.rewards

end Manager

/-! ### All files -/

namespace LoadsAs

open Manager

variable {calls : List Call} {file : String × Except QuestFileError QuestFile}
  {report : TemplateReport} {outcome : Except (String × String) TemplateSummary}

/-- The lint has an error against a file exactly if the file cannot be used. -/
theorem error?_eq_some_iff (h : LoadsAs calls file report outcome) {message : String} :
    report.error? = some message ↔ ∃ e, file.2 = .error e ∧ message = e.message := by
  cases h with
  | refused hfile herror => simp [hfile, herror, eq_comm]
  | unknownState hfile herror _ => simp [hfile, herror]
  | loaded hfile herror => simp [hfile, herror]

/-- An error of the lint is the failure of the loader. -/
theorem outcome_of_error? (h : LoadsAs calls file report outcome) {message : String}
    (herror : report.error? = some message) : outcome = .error (report.path, message) := by
  cases h with
  | refused _ h =>
    rw [h] at herror
    rw [Option.some.inj herror]
  | unknownState _ h _ =>
    rw [h] at herror
    cases herror
  | loaded _ h =>
    rw [h] at herror
    cases herror

/-- In a file that is loaded, a declaration of a registered type has an error exactly if its formula
is refused at parsing, and the same one. -/
theorem formula_error?_eq_some_iff (h : LoadsAs calls file report outcome) {q : QuestFile}
    {S : StateType} {registry : Registry S} (hfile : file.2 = .ok q)
    (hreg : inForce? calls q.state = some ⟨S, registry⟩) :
    ∀ f ∈ report.formulas, ∀ R, registry.rewards.get? f.reward.rewardType = some R →
      ∀ message, f.error? = some message ↔ ∃ error,
        Descriptor.evaluator ⟨S, R, f.reward.formula⟩ = .error error ∧ error.stage = .parsing ∧
          message = error.message := by
  cases h with
  | refused hfile' =>
    rw [hfile] at hfile'
    cases hfile'
  | unknownState hfile' _ hreg' =>
    obtain rfl := Except.ok.inj (hfile.symm.trans hfile')
    rw [hreg] at hreg'
    cases hreg'
  | loaded hfile' _ hreg' _ _ hforetold =>
    obtain rfl := Except.ok.inj (hfile.symm.trans hfile')
    cases Option.some.inj (hreg.symm.trans hreg')
    exact ((List.forall₂_and_left _ _).mp (hforetold.imp fun f entry hf =>
      ⟨fun R hR message => hf.error?_eq_some_iff hR, hf⟩)).1

/-- A failure of the loader is an error of the lint, or the state type is unknown. -/
theorem of_error {failed : String × String} (h : LoadsAs calls file report (.error failed)) :
    failed.1 = report.path ∧ (report.error? = some failed.2 ∨ ∃ q, file.2 = .ok q ∧
      inForce? calls q.state = none ∧ failed.2 = (QuestError.unknownState q.state).message) := by
  cases h with
  | refused _ herror => exact ⟨rfl, .inl herror⟩
  | unknownState hfile _ hreg => exact ⟨rfl, .inr ⟨_, hfile, hreg, rfl⟩⟩

/-- Where a file loads without a disabled reward, the lint says nothing against it. -/
theorem of_ok {summary : TemplateSummary} (h : LoadsAs calls file report (.ok summary))
    (hdisabled : summary.disabled = []) :
    report.error? = none ∧ ∀ f ∈ report.formulas, f.error? = none := by
  cases h with
  | @loaded q S registry t _ _ herror _ _ _ _ _ _ hsublist =>
    refine ⟨herror, fun f hf => ?_⟩
    have hnone : t.disabled = [] := List.map_eq_nil_iff.mp hdisabled
    rw [hnone, List.sublist_nil, List.filterMap_eq_nil_iff] at hsublist
    exact Option.map_eq_none_iff.mp (hsublist f hf)

end LoadsAs

namespace Manager

/-- After any calls, the lint of a directory foretells its load.  Of each file the loader makes what
`LoadsAs` says of the lint's report on it: the lint has an error against the file exactly if the
loader refuses it as a quest file, and every other failure is that of an unknown state type; a
declaration with an error is disabled, in the order of the file, for that error or for its unknown
reward type.  The lint passes no formula that the loader refuses at parsing: where the reward type is
registered, the declaration has that error.  So a clean load means a clean lint, whatever has been
registered. -/
theorem lint_foretells_load (calls : List Call) (directory : String) (entries : Entries) :
    let files := (QuestFile.loadEntries directory entries).value
    let outcome := fileOutcome (history calls).states
    ∃ lint report, lintDirectory directory (.ok entries) = .ok lint ∧
      ((history calls).loadDirectory directory (.ok entries)).value.1 = .ok report ∧
      (lint.templates = files.map (fun file => lintTemplate file.1 file.2) ∧
        lint.templates.map (·.path) = QuestFile.paths directory entries) ∧
      (report.loaded = (files.map outcome).filterMap Except.toOption ∧
        report.failed = (files.map outcome).filterMap failure?) ∧
      (∀ file ∈ files, LoadsAs calls file (lintTemplate file.1 file.2) (outcome file)) ∧
      (∀ file ∈ files, ∀ message, (lintTemplate file.1 file.2).error? = some message ↔
        ∃ e, file.2 = .error e ∧ message = e.message) ∧
      (∀ file ∈ files, ∀ q S registry, file.2 = .ok q →
        inForce? calls q.state = some ⟨S, registry⟩ →
        ∀ f ∈ (lintTemplate file.1 file.2).formulas, ∀ R,
          registry.rewards.get? f.reward.rewardType = some R →
          ∀ message, f.error? = some message ↔ ∃ error,
            Descriptor.evaluator ⟨S, R, f.reward.formula⟩ = .error error ∧
              error.stage = .parsing ∧ message = error.message) ∧
      (∀ template ∈ lint.templates, ∀ message, template.error? = some message →
        (template.path, message) ∈ report.failed) ∧
      (∀ failed ∈ report.failed,
        (∃ template ∈ lint.templates, failed.1 = template.path ∧
          template.error? = some failed.2) ∨
        ∃ q, (failed.1, .ok q) ∈ files ∧ inForce? calls q.state = none ∧
          failed.2 = (QuestError.unknownState q.state).message) ∧
      (report.isClean = true → lint.isClean = true) := by
  intro files outcome
  have hm : (history calls).Sound := sound_history calls
  have hloads (file : String × Except QuestFileError QuestFile) :
      LoadsAs calls file (lintTemplate file.1 file.2) (outcome file) :=
    loadsAs_fileOutcome calls file
  have htemplates : (lintFiles files).templates = _ := (lintFiles_spec files).1
  obtain ⟨report, hreport, hloaded, hfailed⟩ : ∃ report,
      ((history calls).loadDirectory directory (.ok entries)).value.1 = .ok report ∧
      report.loaded = (files.map outcome).filterMap Except.toOption ∧
      report.failed = (files.map outcome).filterMap failure? :=
    ⟨_, congrArg Prod.fst (hm.loadDirectory_value directory entries), rfl, rfl⟩
  refine ⟨lintFiles files, report, rfl, hreport, ⟨htemplates, ?_⟩, ⟨hloaded, hfailed⟩,
    fun file _ => hloads file, fun file _ message => (hloads file).error?_eq_some_iff,
    fun file _ q S registry hq hreg => (hloads file).formula_error?_eq_some_iff hq hreg,
    fun template htemplate message herror => ?_, fun failed hmem => ?_, fun hclean => ?_⟩
  · rw [htemplates, List.map_map, ← QuestFile.map_fst_loadEntries]
    exact List.map_congr_left fun file _ => path_lintTemplate file.1 file.2
  · rw [htemplates] at htemplate
    obtain ⟨file, hfile, rfl⟩ := List.mem_map.mp htemplate
    rw [hfailed, mem_filterMap_failure?]
    exact ⟨file, hfile, (hloads file).outcome_of_error? herror⟩
  · rw [hfailed, mem_filterMap_failure?] at hmem
    obtain ⟨file, hfile, houtcome⟩ := hmem
    obtain ⟨hpath, herror | ⟨q, hq, hreg, hmessage⟩⟩ := (houtcome ▸ hloads file).of_error
    · refine .inl ⟨lintTemplate file.1 file.2, ?_, hpath, herror⟩
      rw [htemplates]
      exact List.mem_map_of_mem hfile
    · rw [path_lintTemplate] at hpath
      exact .inr ⟨q, by rwa [hpath, ← hq], hreg, hmessage⟩
  · obtain ⟨hnone, hdisabled⟩ := LoadReport.isClean_iff.mp hclean
    refine isClean_lintFiles_iff.mpr fun file hfile => ?_
    cases houtcome : outcome file with
    | error failed =>
      have hmem : failed ∈ report.failed := by
        rw [hfailed, mem_filterMap_failure?]
        exact ⟨file, hfile, houtcome⟩
      rw [hnone] at hmem
      cases hmem
    | ok summary =>
      refine (houtcome ▸ hloads file).of_ok (hdisabled summary ?_)
      rw [hloaded, mem_filterMap_toOption]
      exact ⟨file, hfile, houtcome⟩

/-- A file that is no quest file fails beside a quest, of whose declarations two are no formulas, one
of a registered type and one of another, a third fails for a name, and a fourth is compiled; and a
quest with that one alone is clean. -/
theorem lint_foretells_load_hunt :
    let file (text : String) : FileNode := .file (.ok text)
    let calls : List Call := [.register "hunts" huntState (.builtin "")]
    let mixed : Entries := [("broken.quest", file "hunt"),
      ("hunt.quest", file ("name = hunt\nstate = hunts\nreward = XpReward: 1 +\n" ++
        "reward = Gems: 2 *\nreward = XpReward: score\nreward = XpReward: 1"))]
    let clean : Entries := [("hunt.quest", file "name = hunt\nstate = hunts\nreward = XpReward: 1")]
    let parseError (formula : String) : String := "Parse error in `" ++ formula ++
      "` at position 3: Expected expression, found end of formula"
    let reason (declared text : String) : String :=
      "Quest `hunt`: reward " ++ declared ++ " disabled: " ++ text
    (∃ lint report, lintDirectory "quests" (.ok mixed) = .ok lint ∧
      ((history calls).loadDirectory "quests" (.ok mixed)).value.1 = .ok report ∧
      lint.templates.map (fun t => t.formulas.map (·.error?)) =
        [[], [some (parseError "1 +"), some (parseError "2 *"), none, none]] ∧
      report.loaded.map (·.disabled) = [[
        reason "XpReward (`1 +`)" ("Formula error: " ++ parseError "1 +"),
        reason "Gems (`2 *`)" "Unknown reward type: Gems",
        reason "XpReward (`score`)"
          "Formula error: Variable `score` in `score` has non-numeric type ()"]] ∧
      ("quests/broken.quest",
        (QuestFileError.inFile "quests/broken.quest" (.noEquals 1 "hunt")).message) ∈
          report.failed) ∧
    ∃ lint, lintDirectory "quests" (.ok clean) = .ok lint ∧ lint.isClean = true := by
  intro file calls mixed clean parseError reason
  have hmixed : (QuestFile.loadEntries "quests" mixed).value =
      (QuestFile.loadAll "quests" mixed).value :=
    QuestFile.value_loadEntries "quests" (by decide +kernel) (by decide +kernel)
  have hclean : (QuestFile.loadEntries "quests" clean).value =
      (QuestFile.loadAll "quests" clean).value :=
    QuestFile.value_loadEntries "quests" (by decide +kernel) (by decide +kernel)
  refine ⟨?_, ?_⟩
  · obtain ⟨lint, report, hlint, hreport, ⟨htemplates, -⟩, ⟨hloaded, -⟩, -, -, -, hrefused, -⟩ :=
      lint_foretells_load calls "quests" mixed
    refine ⟨lint, report, hlint, hreport, ?_, ?_, hrefused (lintTemplate "quests/broken.quest"
      (.error (.inFile "quests/broken.quest" (.noEquals 1 "hunt")))) ?_ _ rfl⟩
    · rw [htemplates, hmixed]
      decide +kernel
    · rw [hloaded, hmixed]
      decide +kernel
    · have hbroken : ("quests/broken.quest",
          .error (.inFile "quests/broken.quest" (.noEquals 1 "hunt"))) ∈
            (QuestFile.loadAll "quests" mixed).value := by decide +kernel
      rw [htemplates, hmixed]
      exact List.mem_map_of_mem hbroken
  · obtain ⟨lint, report, hlint, hreport, -, ⟨hloaded, hfailed⟩, -, -, -, -, -, himplies⟩ :=
      lint_foretells_load calls "quests" clean
    refine ⟨lint, hlint, himplies ?_⟩
    have houtcomes : (QuestFile.loadAll "quests" clean).value.map
        (fileOutcome (history calls).states) = [.ok ⟨"hunt", "hunts", 1, []⟩] := by decide +kernel
    rw [LoadReport.isClean_iff, hloaded, hfailed, hclean, houtcomes]
    exact ⟨rfl, by decide⟩

end Manager

end QuestFormula
