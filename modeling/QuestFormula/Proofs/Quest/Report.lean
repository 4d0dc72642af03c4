import QuestFormula.Proofs.Quest.Directory

/-! The report on a directory, read against the store.  A later file of a directory may load a quest
of a name that an earlier one loaded, and then takes its place; so what the report says of a name
last is what the store holds under it, and the names that the directory has left in the store are
the names in the report. -/

namespace QuestFormula

namespace Manager

/-- The summary is that of the template now held under its name. -/
def Describes (m : Manager) (summary : TemplateSummary) : Prop :=
  m.stateOf? summary.name = some summary.state ∧
  ∃ S t, m.template? S summary.name = some t ∧ t.rewards.length = summary.rewards ∧
    t.disabled.map (·.message) = summary.disabled

/-- What the manager holds under a name is what one of the files stores under it, loaded after
calls. -/
def HoldsFrom (m : Manager) (calls : List Call)
    (files : List (String × Except QuestFileError QuestFile)) (name : String) : Prop :=
  ∃ path q reg, (path, .ok q) ∈ files ∧ q.name = name ∧ inForce? calls q.state = some reg ∧
    m.templates.get? name = some (loaded q reg)

/-- The summaries of the quest files that load with state types registered. -/
def summaries (states : Table Registration) (qs : List QuestFile) : List TemplateSummary :=
  qs.filterMap fun q => (outcome states q).toOption

variable {states : Table Registration} {m : Manager} {qs : List QuestFile}

theorem toOption_outcome_eq_some_iff {q : QuestFile} {summary : TemplateSummary} :
    (outcome states q).toOption = some summary ↔
      ∃ reg, states.get? q.state = some reg ∧ summary = summarize q (reg.registry.template q) := by
  rw [outcome]
  cases states.get? q.state with
  | none => simp [Except.toOption]
  | some reg => simp [Except.toOption, eq_comm]

theorem describes_of_get? {q : QuestFile} {reg : Registration}
    (h : m.templates.get? q.name = some (loaded q reg)) :
    m.Describes (summarize q (reg.registry.template q)) := by
  refine ⟨?_, reg.state, reg.registry.template q, template?_eq_some_iff.mpr ⟨q.state, h⟩, rfl, rfl⟩
  show m.stateOf? q.name = some q.state
  rw [stateOf?, h]
  rfl

/-- The last summary of a name is that of the last quest file to store anything under it. -/
theorem lastStored?_of_summaries {before later : List TemplateSummary} {summary : TemplateSummary}
    (h : summaries states qs = before ++ summary :: later)
    (hlater : summary.name ∉ later.map (·.name)) :
    ∃ q ∈ qs, ∃ reg, states.get? q.state = some reg ∧
      summary = summarize q (reg.registry.template q) ∧
      lastStored? states qs q.name = some (loaded q reg) := by
  obtain ⟨qs₁, rest, rfl, -, hrest⟩ := List.filterMap_eq_append_iff.mp h
  obtain ⟨skipped, q, qs₂, rfl, -, hq, hqs₂⟩ := List.filterMap_eq_cons_iff.mp hrest
  obtain ⟨reg, hreg, rfl⟩ := toOption_outcome_eq_some_iff.mp hq
  -- A quest file after this one that stored anything under its name would have a summary too.
  have hnone : qs₂.reverse.findSome? (fun q' => storedAs? states q' q.name) = none := by
    rw [List.findSome?_eq_none_iff]
    intro q' hq'
    rw [Option.eq_none_iff_forall_not_mem]
    intro t ht
    have hname : q'.name = q.name := name_of_storedAs? ht
    rw [storedAs?, if_pos hname, stored?] at ht
    obtain ⟨reg', hreg', -⟩ := Option.map_eq_some_iff.mp ht
    have hsummary : summarize q' (reg'.registry.template q') ∈ later :=
      hqs₂ ▸ List.mem_filterMap.mpr
        ⟨q', List.mem_reverse.mp hq', toOption_outcome_eq_some_iff.mpr ⟨reg', hreg', rfl⟩⟩
    exact hlater (List.mem_map.mpr ⟨_, hsummary, hname⟩)
  refine ⟨q, by simp, reg, hreg, rfl, ?_⟩
  have hstored : storedAs? states q q.name = some (loaded q reg) := by
    rw [storedAs?, if_pos rfl, stored?, hreg]
    rfl
  rw [lastStored?, List.reverse_append, List.reverse_append, List.reverse_cons,
    List.findSome?_append, List.findSome?_append, List.findSome?_append, hnone,
    List.findSome?_singleton, hstored]
  rfl

theorem exists_last_of_name {name : String} {summaries : List TemplateSummary}
    (h : name ∈ summaries.map (·.name)) : ∃ before summary later,
      summaries = before ++ summary :: later ∧ summary.name = name ∧
      summary.name ∉ later.map (·.name) := by
  -- The last summary of the name is the first one from the end.
  obtain ⟨later, before, hnames, hnew⟩ := List.eq_append_cons_of_mem (List.mem_reverse.mpr h)
  have hsplit : summaries.map (·.name) = before.reverse ++ name :: later.reverse := by
    rw [← List.reverse_reverse (summaries.map (·.name)), hnames]
    simp
  obtain ⟨before', rest, rfl, -, hrest⟩ := List.map_eq_append_iff.mp hsplit
  obtain ⟨summary, later', rfl, hname, hlater⟩ := List.map_eq_cons_iff.mp hrest
  exact ⟨before', summary, later', rfl, hname, by rwa [hlater, hname, List.mem_reverse]⟩

theorem mem_readable {files : List (String × Except QuestFileError QuestFile)} {q : QuestFile} :
    q ∈ (readable files).map Prod.snd ↔ ∃ path, (path, .ok q) ∈ files := by
  simp only [readable, List.mem_map, List.mem_filterMap, Option.map_eq_some_iff]
  constructor
  · rintro ⟨_, ⟨⟨path, read⟩, hmem, q', hread, rfl⟩, rfl⟩
    cases read with
    | error e => cases hread
    | ok q =>
      cases hread
      exact ⟨path, hmem⟩
  · rintro ⟨path, hmem⟩
    exact ⟨(path, q), ⟨(path, .ok q), hmem, q, rfl, rfl⟩, rfl⟩

theorem loaded_eq_summaries (states : Table Registration)
    (files : List (String × Except QuestFileError QuestFile)) :
    (files.map (fileOutcome states)).filterMap Except.toOption =
      summaries states ((readable files).map Prod.snd) := by
  rw [← filterMap_awaited, summaries, List.filterMap_map, List.filterMap_map]
  rfl

/-- After any calls, the report on a directory tells what its last load of each name has left in
the store: the last summary of a name describes the template held under it.  The names that the
directory leaves in the store are the names in the report, so there are as many of them as the
report has distinct names, and as many as it has summaries exactly if no two of those share a
name. -/
theorem report_describes_last_loads (calls : List Call) (directory : String) (entries : Entries) :
    let files := (QuestFile.loadEntries directory entries).value
    ∃ report m,
      ((history calls).loadDirectory directory (.ok entries)).value = (.ok report, m) ∧
      (∀ before summary later, report.loaded = before ++ summary :: later →
        summary.name ∉ later.map (·.name) → m.Describes summary) ∧
      (∀ name, m.HoldsFrom calls files name ↔ name ∈ report.loaded.map (·.name)) ∧
      {name | m.HoldsFrom calls files name}.ncard = (report.loaded.map (·.name)).toFinset.card ∧
      ({name | m.HoldsFrom calls files name}.ncard = report.loaded.length ↔
        (report.loaded.map (·.name)).Nodup) := by
  intro files
  have hm : (history calls).Sound := sound_history calls
  let qs := (readable files).map Prod.snd
  let m := ((history calls).loadAll qs).2
  have hget (name : String) : m.templates.get? name = _ := hm.get?_templates_loadAll qs name
  refine ⟨_, m, hm.loadDirectory_value directory entries, ?_⟩
  dsimp only
  rw [loaded_eq_summaries]
  have hlast {before later : List TemplateSummary} {summary : TemplateSummary}
      (hsplit : summaries (history calls).states qs = before ++ summary :: later)
      (hlater : summary.name ∉ later.map (·.name)) : ∃ q ∈ qs, ∃ reg,
        inForce? calls q.state = some reg ∧ summary = summarize q (reg.registry.template q) ∧
        m.templates.get? q.name = some (loaded q reg) := by
    obtain ⟨q, hq, reg, hreg, hsummary, hstored⟩ := lastStored?_of_summaries hsplit hlater
    rw [get?_states_history] at hreg
    exact ⟨q, hq, reg, hreg, hsummary, by rw [hget, hstored, Option.some_or]⟩
  have hnames (name : String) : m.HoldsFrom calls files name ↔
      name ∈ (summaries (history calls).states qs).map (·.name) := by
    constructor
    · rintro ⟨path, q, reg, hq, rfl, hreg, -⟩
      rw [← get?_states_history] at hreg
      refine List.mem_map.mpr ⟨summarize q (reg.registry.template q), ?_, rfl⟩
      exact List.mem_filterMap.mpr
        ⟨q, mem_readable.mpr ⟨path, hq⟩, toOption_outcome_eq_some_iff.mpr ⟨reg, hreg, rfl⟩⟩
    · intro hname
      obtain ⟨before, summary, later, hsplit, rfl, hlater⟩ := exists_last_of_name hname
      obtain ⟨q, hq, reg, hreg, rfl, hstored⟩ := hlast hsplit hlater
      obtain ⟨path, hpath⟩ := mem_readable.mp hq
      exact ⟨path, q, reg, hpath, rfl, hreg, hstored⟩
  have hcard : {name | m.HoldsFrom calls files name}.ncard =
      ((summaries (history calls).states qs).map (·.name)).toFinset.card := by
    rw [← Set.ncard_coe_finset]
    exact congrArg Set.ncard (Set.ext fun name => by simp [hnames])
  refine ⟨fun before summary later hsplit hlater => ?_, hnames, hcard, ?_⟩
  · obtain ⟨q, -, reg, -, rfl, hstored⟩ := hlast hsplit hlater
    exact describes_of_get? hstored
  · rw [hcard, ← List.length_map (·.name)]
    exact Multiset.toFinset_card_eq_card_iff_nodup

/-! ### One name twice -/

/-- Two quest files of one name, for different state types. -/
def oneNameTwice : Entries :=
  [("a.quest", .file (.ok "name = hunt\nstate = hunts")),
    ("b.quest", .file (.ok "name = hunt\nstate = lakes"))]

/-- Calls that register both state types. -/
def huntsAndLakes : List Call :=
  [.register "hunts" huntState (.builtin ""), .register "lakes" ⟨"Lake", .nil⟩ .empty]

theorem loadEntries_oneNameTwice :
    (QuestFile.loadEntries "quests" oneNameTwice).value =
      (QuestFile.loadAll "quests" oneNameTwice).value :=
  QuestFile.value_loadEntries "quests" (by decide +kernel) (by decide +kernel)

theorem loadDirectory_oneNameTwice :
    ((history huntsAndLakes).loadDirectory "quests" (.ok oneNameTwice)).value.1 =
      .ok ⟨[⟨"hunt", "hunts", 0, []⟩, ⟨"hunt", "lakes", 0, []⟩], []⟩ := by
  rw [(sound_history huntsAndLakes).loadDirectory_value, loadEntries_oneNameTwice]
  decide +kernel

/-- Of two summaries of one name the second describes what is held, under the one name. -/
theorem report_describes_last_loads_twice :
    let files := (QuestFile.loadEntries "quests" oneNameTwice).value
    let m := ((history huntsAndLakes).loadDirectory "quests" (.ok oneNameTwice)).value.2
    m.Describes ⟨"hunt", "lakes", 0, []⟩ ∧
      {name | m.HoldsFrom huntsAndLakes files name}.ncard = 1 := by
  intro files
  obtain ⟨report, m, hload, hlast, -, hcard, -⟩ :=
    report_describes_last_loads huntsAndLakes "quests" oneNameTwice
  have hreport := loadDirectory_oneNameTwice
  rw [hload] at hreport ⊢
  obtain rfl := Except.ok.inj hreport
  exact ⟨hlast [⟨"hunt", "hunts", 0, []⟩] _ [] rfl (by simp), hcard⟩

/-- A report without a failure may have a summary that describes no template of the store, and more
summaries than the store has names. -/
theorem report_outlives_template :
    ∃ report m,
      ((history huntsAndLakes).loadDirectory "quests" (.ok oneNameTwice)).value = (.ok report, m) ∧
      report.isClean = true ∧ (∃ summary ∈ report.loaded, ¬m.Describes summary) ∧
      m.templateCount < report.loaded.length := by
  refine ⟨_, _, Prod.ext loadDirectory_oneNameTwice rfl, by decide, ?_⟩
  rw [(sound_history huntsAndLakes).loadDirectory_value, loadEntries_oneNameTwice]
  refine ⟨⟨⟨"hunt", "hunts", 0, []⟩, by simp, fun h => ?_⟩, by decide +kernel⟩
  have hstate := h.1
  revert hstate
  decide +kernel

end Manager

end QuestFormula
