import QuestFormula.Proofs.Factory.Transparency
import QuestFormula.Proofs.Quest.Store

/-! Many quest files.  What comes of one depends on the registered state types alone, and no load
changes those.  Loads of distinct names therefore commute in everything that can be observed, though
the factory is another one at every point between them, and the tasks that load the files of a
directory may run in any order: report and store are those of the files one after another. -/

namespace QuestFormula

theorem Table.Distinct.names_congr {α : Type} {t t' : Table α} (h : t.Distinct) (h' : t'.Distinct)
    (hget : ∀ name, t.get? name = t'.get? name) : t.names = t'.names := by
  refine List.Pairwise.eq_of_mem_iff h.pairwise_names h'.pairwise_names fun name => ?_
  rw [mem_names, mem_names, contains, contains, hget]

/-! ### Reports -/

section Outcomes

variable {α ε β : Type} {f : α → Except ε β} {l : List α}

theorem mem_filterMap_failure? {e : ε} :
    e ∈ (l.map f).filterMap failure? ↔ ∃ a ∈ l, f a = .error e := by
  rw [List.filterMap_map, List.mem_filterMap]
  refine exists_congr fun a => and_congr_right fun _ => ?_
  show failure? (f a) = some e ↔ _
  cases f a with
  | error e' => simp [failure?]
  | ok b => simp [failure?]

theorem mem_filterMap_toOption {b : β} :
    b ∈ (l.map f).filterMap Except.toOption ↔ ∃ a ∈ l, f a = .ok b := by
  rw [List.filterMap_map, List.mem_filterMap]
  refine exists_congr fun a => and_congr_right fun _ => ?_
  show (f a).toOption = some b ↔ _
  cases f a with
  | error e => simp [Except.toOption]
  | ok b' => simp [Except.toOption]

end Outcomes

theorem LoadReport.isClean_iff {report : LoadReport} : report.isClean = true ↔
    report.failed = [] ∧ ∀ summary ∈ report.loaded, summary.disabled = [] := by
  rw [isClean, Bool.and_eq_true, List.isEmpty_iff, beq_iff_eq, disabledCount,
    List.length_eq_zero_iff, List.flatMap_eq_nil_iff]

namespace Manager

/-! ### Quest files one after another -/

/-- Loads quest files one after another, with what comes of each. -/
def loadAll (m : Manager) : List QuestFile → List (Except QuestError TemplateSummary) × Manager
  | [] => ([], m)
  | q :: qs =>
    let (outcome, next) := (m.load q).value
    let (outcomes, last) := next.loadAll qs
    (outcome :: outcomes, last)

section Registered

variable (states : Table Registration) (q : QuestFile)

/-- What comes of loading a quest file with state types registered. -/
def outcome : Except QuestError TemplateSummary :=
  match states.get? q.state with
  | none => .error (.unknownState q.state)
  | some reg => .ok (summarize q (reg.registry.template q))

/-- What is stored of the quest file, if its state type is registered. -/
def stored? : Option LoadedTemplate := (states.get? q.state).map (loaded q)

/-- What is stored of the quest file under a name. -/
def storedAs? (name : String) : Option LoadedTemplate :=
  if q.name = name then stored? states q else none

/-- What is stored under a name of the last of some quest files of which anything is. -/
def lastStored? (qs : List QuestFile) (name : String) : Option LoadedTemplate :=
  qs.reverse.findSome? fun q => storedAs? states q name

end Registered

variable {m : Manager}

theorem loadAll_cons (m : Manager) (q : QuestFile) (qs : List QuestFile) :
    m.loadAll (q :: qs) =
      let rest := (m.load q).value.2.loadAll qs
      ((m.load q).value.1 :: rest.1, rest.2) := rfl

theorem loadAll_snd (m : Manager) (qs : List QuestFile) :
    (m.loadAll qs).2 = (qs.map Call.load).foldl after m := by
  induction qs generalizing m with
  | nil => rfl
  | cons q qs ih => exact ih (m.load q).value.2

theorem requests_load_congr {m' : Manager} (h : m'.states = m.states) (q : QuestFile) :
    m'.requests (.load q) = m.requests (.load q) := by
  rw [requests, requests, h]

namespace Sound

theorem load_fst (hm : m.Sound) (q : QuestFile) : (m.load q).value.1 = outcome m.states q := by
  rw [outcome]
  rcases hm.load_cases q with ⟨hstate, hload⟩ | ⟨reg, hstate, hload⟩
  · rw [hload, hstate]
  · rw [hload, hstate]

theorem states_load (hm : m.Sound) (q : QuestFile) : (m.load q).value.2.states = m.states := by
  rcases hm.load_cases q with ⟨-, hload⟩ | ⟨reg, -, hload⟩
  · rw [hload]
  · rw [hload]

theorem get?_templates_load (hm : m.Sound) (q : QuestFile) (name : String) :
    (m.load q).value.2.templates.get? name =
      (storedAs? m.states q name).or (m.templates.get? name) := by
  rw [storedAs?, stored?]
  rcases hm.load_cases q with ⟨hstate, hload⟩ | ⟨reg, hstate, hload⟩
  · simp [hload, hstate]
  · rw [hload, hstate]
    by_cases h : q.name = name
    · subst h
      simp
    · simp [h, Table.get?_insert_of_ne _ _ h]

/-- What a run of loads leaves as it was, what it gives, and what it asks of the factory. -/
theorem loadAll (hm : m.Sound) (qs : List QuestFile) :
    (m.loadAll qs).2.Sound ∧ (m.loadAll qs).2.states = m.states ∧
      (m.loadAll qs).1 = qs.map (outcome m.states) ∧
      (m.loadAll qs).2.factory =
        (qs.flatMap fun q => m.requests (.load q)).foldl Factory.after m.factory := by
  induction qs generalizing m with
  | nil => exact ⟨hm, rfl, rfl, rfl⟩
  | cons q qs ih =>
    obtain ⟨hsound, hstates, houtcomes, hfactory⟩ := ih (hm.after (.load q))
    have hnext : (m.after (.load q)).states = m.states := hm.states_load q
    refine ⟨hsound, hstates.trans hnext, ?_, ?_⟩
    · rw [Manager.loadAll, List.map_cons, ← hm.load_fst q, ← hnext]
      exact congrArg (_ :: ·) houtcomes
    · rw [List.flatMap_cons, List.foldl_append, ← factory_after hm.factory]
      simp only [requests_load_congr hnext] at hfactory
      exact hfactory

/-- A name holds what the last quest file to store anything under it stored. -/
theorem get?_templates_loadAll (hm : m.Sound) (qs : List QuestFile) (name : String) :
    (m.loadAll qs).2.templates.get? name =
      (lastStored? m.states qs name).or (m.templates.get? name) := by
  induction qs generalizing m with
  | nil => rfl
  | cons q qs ih =>
    have hnext := ih (hm.after (.load q))
    rw [Manager.after, hm.states_load q, hm.get?_templates_load q name] at hnext
    rw [loadAll_cons, hnext, ← Option.or_assoc, lastStored?, lastStored?, List.reverse_cons,
      List.findSome?_append, List.findSome?_singleton]

end Sound

/-! ### Orders -/

/-- Two managers are the same but for the numbers of the evaluators that their factories keep. -/
structure Agrees (m m' : Manager) : Prop where
  states : m.states = m'.states
  template? : ∀ S name, m.template? S name = m'.template? S name
  stateOf? : ∀ name, m.stateOf? name = m'.stateOf? name
  templateNames : m.templateNames = m'.templateNames
  size : m.factory.size = m'.factory.size
  compilations : m.factory.compilations = m'.factory.compilations

theorem name_of_storedAs? {states : Table Registration} {q : QuestFile} {name : String}
    {t : LoadedTemplate} (h : storedAs? states q name = some t) : q.name = name := by
  rw [storedAs?] at h
  by_contra hne
  rw [if_neg hne] at h
  cases h

/-- Of quest files of distinct names, one at most stores anything under a name. -/
theorem lastStored?_eq_some_iff {states : Table Registration} {qs : List QuestFile}
    (hqs : (qs.map (·.name)).Nodup) {name : String} {t : LoadedTemplate} :
    lastStored? states qs name = some t ↔ ∃ q ∈ qs, storedAs? states q name = some t := by
  constructor
  · intro h
    obtain ⟨q, hq, ht⟩ := List.exists_of_findSome?_eq_some h
    exact ⟨q, List.mem_reverse.mp hq, ht⟩
  · rintro ⟨q, hq, ht⟩
    cases h : lastStored? states qs name with
    | none =>
      have hnone := List.findSome?_eq_none_iff.mp h q (List.mem_reverse.mpr hq)
      rw [ht] at hnone
      cases hnone
    | some t' =>
      obtain ⟨q', hq', ht'⟩ := List.exists_of_findSome?_eq_some h
      obtain rfl : q' = q := List.inj_on_of_nodup_map hqs (List.mem_reverse.mp hq') hq
        ((name_of_storedAs? ht').trans (name_of_storedAs? ht).symm)
      exact ht'.symm.trans ht

theorem agrees_loadAll (calls : List Call) {qs qs' : List QuestFile}
    (hqs : (qs.map (·.name)).Nodup) (hperm : qs'.Perm qs) :
    Agrees ((history calls).loadAll qs').2 ((history calls).loadAll qs).2 := by
  have hm := sound_history calls
  obtain ⟨hsound, hstates, -, hfactory⟩ := hm.loadAll qs
  obtain ⟨hsound', hstates', -, hfactory'⟩ := hm.loadAll qs'
  have hget (name : String) : ((history calls).loadAll qs').2.templates.get? name =
      ((history calls).loadAll qs).2.templates.get? name := by
    have hlast : lastStored? (history calls).states qs' name =
        lastStored? (history calls).states qs name := by
      refine Option.ext fun t => ?_
      rw [lastStored?_eq_some_iff hqs, lastStored?_eq_some_iff ((hperm.map _).nodup_iff.mpr hqs)]
      simp only [hperm.mem_iff]
    rw [hm.get?_templates_loadAll, hm.get?_templates_loadAll, hlast]
  -- In both orders the factory has been asked for the same descriptors, so it keeps as many.
  obtain ⟨requests, hrequests⟩ := exists_factory_history calls
  rw [hrequests, ← Factory.history_append] at hfactory hfactory'
  have hneeded := List.toFinset_eq_of_perm _ _
    ((((hperm.flatMap_right fun q => (history calls).requests (.load q)).append_left
      requests).filterMap Factory.Call.descriptor?))
  refine ⟨hstates'.trans hstates.symm, fun S name => ?_, fun name => ?_,
    hsound'.templates.names_congr hsound.templates hget, ?_, ?_⟩
  · rw [template?, template?, hget]
  · rw [stateOf?, stateOf?, hget]
  · rw [hfactory, hfactory', Factory.size_history, Factory.size_history]
    exact congrArg Finset.card hneeded
  · rw [hfactory, hfactory', Factory.compilations_history, Factory.compilations_history]
    exact congrArg Finset.card hneeded

/-! ### The files of a directory -/

section Files

/-- What comes of a file, with its path where it fails. -/
def fileOutcome (states : Table Registration)
    (file : String × Except QuestFileError QuestFile) : Except (String × String) TemplateSummary :=
  match file.2 with
  | .error e => .error (file.1, e.message)
  | .ok q => (outcome states q).mapError fun e => (file.1, e.message)

theorem fileOutcome_ok (states : Table Registration) (path : String) (q : QuestFile) :
    fileOutcome states (path, .ok q) = (outcome states q).mapError fun e => (path, e.message) := rfl

/-- The quest files that could be read, with their paths. -/
def readable (files : List (String × Except QuestFileError QuestFile)) :
    List (String × QuestFile) :=
  files.filterMap fun file => file.2.toOption.map (file.1, ·)

/-- The tasks that load the quest files, numbered in the order of the files. -/
def tasks (files : List (String × Except QuestFileError QuestFile)) :
    List ((String × QuestFile) × Nat) := (readable files).zipIdx

/-- Loads files by tasks that run in some order.  The report starts with the files that could not be
read; the results of the tasks are awaited in the order of the files, and the failures are sorted by
their paths. -/
def loadInOrder (m : Manager) (files : List (String × Except QuestFileError QuestFile))
    (order : List ((String × QuestFile) × Nat)) : LoadReport × Manager :=
  let (outcomes, last) := m.loadAll (order.map fun task => task.1.2)
  let results := (order.map Prod.snd).zip outcomes
  let awaited := (tasks files).filterMap fun task => (results.lookup task.2).map (task.1.1, ·)
  let skipped := files.filterMap fun file => (failure? file.2).map fun e => (file.1, e.message)
  let failed := awaited.filterMap fun result =>
    (failure? result.2).map fun e => (result.1, e.message)
  (⟨awaited.filterMap fun result => result.2.toOption,
    (skipped ++ failed).mergeSort fun a b => decide (a.1 ≤ b.1)⟩, last)

variable {m : Manager} {files : List (String × Except QuestFileError QuestFile)}
  {order : List ((String × QuestFile) × Nat)}

theorem Sound.loadFiles_value (hm : m.Sound)
    (files : List (String × Except QuestFileError QuestFile)) :
    (m.loadFiles files).value =
      (⟨(files.map (fileOutcome m.states)).filterMap Except.toOption,
        (files.map (fileOutcome m.states)).filterMap failure?⟩,
        (m.loadAll ((readable files).map Prod.snd)).2) := by
  induction files generalizing m with
  | nil => rfl
  | cons file files ih =>
    obtain ⟨path, read⟩ := file
    cases read with
    | error e =>
      rw [loadFiles]
      simp only [Logged.value_bind, ih hm]
      rfl
    | ok q =>
      have hfirst := hm.load_fst q
      have hrest := ih (hm.after (.load q))
      rw [Manager.after, hm.states_load q] at hrest
      have hreadable : (readable ((path, .ok q) :: files)).map Prod.snd =
          q :: (readable files).map Prod.snd := rfl
      rw [loadFiles, hreadable, loadAll_cons, List.map_cons, fileOutcome_ok, ← hfirst]
      simp only [Logged.value_bind]
      generalize (m.load q).value = loading at hrest ⊢
      obtain ⟨first, next⟩ := loading
      cases first with
      | ok summary =>
        simp only [Logged.value_bind, hrest]
        rfl
      | error e =>
        simp only [Logged.value_bind, hrest]
        rfl

theorem lookup_map_of_nodup {α γ : Type} {key : α → Nat} (value : α → γ) {l : List α}
    (h : (l.map key).Nodup) {a : α} (ha : a ∈ l) :
    (l.map fun a => (key a, value a)).lookup (key a) = some (value a) := by
  induction l with
  | nil => cases ha
  | cons b l ih =>
    obtain ⟨hb, hl⟩ := List.nodup_cons.mp h
    rcases List.mem_cons.mp ha with rfl | ha
    · exact List.lookup_cons_self
    · have hne : key a ≠ key b := fun hkey => hb (hkey ▸ List.mem_map_of_mem ha)
      rw [List.map_cons, List.lookup_cons, beq_eq_false_iff_ne.mpr hne]
      exact ih hl ha

/-- The tasks load the quest files that could be read. -/
theorem perm_quests (horder : order.Perm (tasks files)) :
    (order.map fun task => task.1.2).Perm ((readable files).map Prod.snd) := by
  refine (horder.map _).trans (.of_eq ?_)
  conv_rhs => rw [← List.zipIdx_map_fst 0 (readable files), List.map_map]
  rfl

/-- The result of every task is found by its number, whatever the order was. -/
theorem Sound.awaited_eq (hm : m.Sound) (horder : order.Perm (tasks files)) :
    ((tasks files).filterMap fun task =>
      (((order.map Prod.snd).zip (m.loadAll (order.map fun task => task.1.2)).1).lookup task.2).map
        (task.1.1, ·)) =
      (readable files).map fun file => (file.1, outcome m.states file.2) := by
  have hnodup : (order.map Prod.snd).Nodup := by
    refine (horder.map _).nodup_iff.mpr ?_
    rw [tasks, List.zipIdx_map_snd]
    exact List.nodup_range'
  obtain ⟨-, -, houtcomes, -⟩ := hm.loadAll (order.map fun task => task.1.2)
  rw [houtcomes, List.map_map, List.zip_map']
  have hfound (task : (String × QuestFile) × Nat) (htask : task ∈ tasks files) :=
    lookup_map_of_nodup (outcome m.states ∘ fun task => task.1.2) hnodup (horder.mem_iff.mpr htask)
  have hsome : ∀ task ∈ tasks files,
      ((order.map fun task => (task.2, (outcome m.states ∘ fun task => task.1.2) task)).lookup
        task.2).map (task.1.1, ·) = some (task.1.1, outcome m.states task.1.2) := by
    intro task htask
    rw [hfound task htask]
    rfl
  rw [List.filterMap_congr hsome, List.filterMap_eq_map', tasks]
  conv_rhs => rw [← List.zipIdx_map_fst 0 (readable files), List.map_map]
  rfl

theorem filterMap_awaited (states : Table Registration)
    (files : List (String × Except QuestFileError QuestFile)) :
    ((readable files).map fun file => (file.1, outcome states file.2)).filterMap
        (fun result => result.2.toOption) =
      (files.map (fileOutcome states)).filterMap Except.toOption := by
  rw [List.filterMap_map, List.filterMap_map, readable, List.filterMap_filterMap]
  refine List.filterMap_congr fun file _ => ?_
  obtain ⟨path, error | q⟩ := file
  · rfl
  · show (outcome states q).toOption = ((outcome states q).mapError _).toOption
    cases outcome states q <;> rfl

theorem perm_filterMap_append {α β : Type} {f g h : α → Option β}
    (hsplit : ∀ a, f a = none ∧ h a = g a ∨ g a = none ∧ h a = f a) (l : List α) :
    (l.filterMap f ++ l.filterMap g).Perm (l.filterMap h) := by
  induction l with
  | nil => exact .nil
  | cons a l ih =>
    rw [List.filterMap_cons, List.filterMap_cons, List.filterMap_cons]
    rcases hsplit a with ⟨hf, hh⟩ | ⟨hg, hh⟩
    · rw [hf, hh]
      cases g a with
      | none => exact ih
      | some b => exact List.perm_middle.trans (ih.cons b)
    · rw [hg, hh]
      cases f a with
      | none => exact ih
      | some b => exact ih.cons b

/-- The files that could not be read and the tasks that failed are the files that failed. -/
theorem perm_failed (states : Table Registration)
    (files : List (String × Except QuestFileError QuestFile)) :
    ((files.filterMap fun file => (failure? file.2).map fun e => (file.1, e.message)) ++
      ((readable files).map fun file => (file.1, outcome states file.2)).filterMap
        fun result => (failure? result.2).map fun e => (result.1, e.message)).Perm
      ((files.map (fileOutcome states)).filterMap failure?) := by
  rw [List.filterMap_map, List.filterMap_map, readable, List.filterMap_filterMap]
  refine perm_filterMap_append (fun file => ?_) files
  obtain ⟨path, error | q⟩ := file
  · exact .inr ⟨rfl, rfl⟩
  · refine .inl ⟨rfl, ?_⟩
    show failure? ((outcome states q).mapError _) = (failure? (outcome states q)).map _
    cases outcome states q <;> rfl

theorem mergeSort_eq_of_perm {l l' : List (String × String)} (hperm : l.Perm l')
    (hl' : l'.Pairwise fun a b => a.1 < b.1) :
    (l.mergeSort fun a b => decide (a.1 ≤ b.1)) = l' := by
  have hsorted := (List.mergeSort_perm l fun a b => decide (a.1 ≤ b.1)).trans hperm
  have hnodup : (l'.map Prod.fst).Nodup := List.pairwise_map.mpr (hl'.imp fun h => h.ne)
  refine List.Perm.eq_of_pairwise (fun a b ha hb hab hba => ?_) (pairwise_mergeSort_by Prod.fst l)
    (hl'.imp fun h => h.le) hsorted
  exact List.inj_on_of_nodup_map hnodup (hsorted.mem_iff.mp ha) hb (le_antisymm hab hba)

theorem pairwise_failed (states : Table Registration)
    (hpaths : (files.map Prod.fst).Pairwise (· < ·)) :
    ((files.map (fileOutcome states)).filterMap failure?).Pairwise fun a b => a.1 < b.1 := by
  have hpath {file : String × Except QuestFileError QuestFile} {failed : String × String}
      (h : failure? (fileOutcome states file) = some failed) : failed.1 = file.1 := by
    obtain ⟨path, error | q⟩ := file
    · cases h
      rfl
    · rw [fileOutcome_ok] at h
      cases houtcome : outcome states q with
      | ok summary => simp [houtcome, Except.mapError, failure?] at h
      | error e =>
        rw [houtcome] at h
        cases h
        rfl
  rw [List.filterMap_map]
  refine List.Pairwise.filterMap _ (fun file file' hlt failed hfailed failed' hfailed' => ?_)
    (List.pairwise_map.mp hpaths)
  rw [hpath hfailed, hpath hfailed']
  exact hlt

/-- The report of tasks that run in any order is that of the files one after another. -/
theorem Sound.loadInOrder_fst (hm : m.Sound) (hpaths : (files.map Prod.fst).Pairwise (· < ·))
    (horder : order.Perm (tasks files)) :
    (m.loadInOrder files order).1 =
      ⟨(files.map (fileOutcome m.states)).filterMap Except.toOption,
        (files.map (fileOutcome m.states)).filterMap failure?⟩ := by
  rw [loadInOrder]
  simp only [hm.awaited_eq horder, filterMap_awaited]
  rw [mergeSort_eq_of_perm (perm_failed m.states files) (pairwise_failed m.states hpaths)]

end Files

end Manager

/-! ### Paths -/

theorem joinPath_lt_joinPath (directory : String) {name name' : String} (h : name < name') :
    joinPath directory name < joinPath directory name' := by
  rw [joinPath, joinPath]
  split
  · simp only [String.lt_iff_toList_lt, String.toList_append] at h ⊢
    exact List.append_left_lt h
  · simp only [String.lt_iff_toList_lt, String.toList_append] at h ⊢
    exact List.append_left_lt h

namespace QuestFile

theorem value_loadAll (directory : String) (entries : Entries) :
    (loadAll directory entries).value = entries.map fun e =>
      (joinPath directory e.1, (ofText (joinPath directory e.1) e.2.text).value) := by
  induction entries with
  | nil => rfl
  | cons e entries ih =>
    rw [List.map_cons, ← ih, loadAll]
    simp only [Logged.value_bind, Logged.value_pure]

theorem map_fst_loadAll (directory : String) (entries : Entries) :
    (loadAll directory entries).value.map Prod.fst =
      entries.map fun e => joinPath directory e.1 := by
  rw [value_loadAll, List.map_map]
  rfl

theorem mem_loadEntries {directory : String} {entries : Entries}
    {file : String × Except QuestFileError QuestFile}
    (h : file ∈ (loadEntries directory entries).value) :
    ∃ e ∈ candidates entries, file =
      (joinPath directory e.1, (ofText (joinPath directory e.1) e.2.text).value) := by
  rw [loadEntries, Logged.value_bind, value_loadAll] at h
  obtain ⟨e, he, rfl⟩ := List.mem_map.mp h
  exact ⟨e, he, rfl⟩

theorem map_fst_loadEntries (directory : String) (entries : Entries) :
    (loadEntries directory entries).value.map Prod.fst = paths directory entries := by
  rw [loadEntries]
  simp only [Logged.value_bind]
  exact map_fst_loadAll directory (candidates entries)

/-- Quest files listed in order are read in order. -/
theorem value_loadEntries (directory : String) {entries : Entries}
    (hfiles : (entries.all fun e => e.2.isFile && extension? e.1 = some questExtension) = true)
    (hsorted : entries.Pairwise fun a b => decide (a.1 ≤ b.1) = true) :
    (loadEntries directory entries).value = (loadAll directory entries).value := by
  have hcandidates : candidates entries = entries := by
    rw [candidates, List.filter_eq_self.mpr (by simpa using hfiles)]
    exact List.mergeSort_of_pairwise hsorted
  exact congrArg (fun candidates => (loadAll directory candidates).value) hcandidates

theorem pairwise_le_paths (directory : String) (entries : Entries) :
    (paths directory entries).Pairwise (· ≤ ·) := by
  have hsorted : (candidates entries).Pairwise fun a b => a.1 ≤ b.1 := pairwise_mergeSort_by _ _
  refine List.pairwise_map.mpr (hsorted.imp fun hle => ?_)
  rcases hle.lt_or_eq with hlt | heq
  · exact (joinPath_lt_joinPath directory hlt).le
  · rw [heq]

/-- The paths are in order, since a directory lists every name once. -/
theorem pairwise_paths (directory : String) {entries : Entries}
    (h : (entries.map Prod.fst).Nodup) : (paths directory entries).Pairwise (· < ·) := by
  have hsorted : (candidates entries).Pairwise fun a b => a.1 ≤ b.1 := pairwise_mergeSort_by _ _
  have hnodup : ((candidates entries).map Prod.fst).Nodup := by
    refine ((List.mergeSort_perm _ _).map _).nodup_iff.mpr ?_
    exact h.sublist (List.filter_sublist.map _)
  rw [paths, List.pairwise_map]
  refine (hsorted.and (List.pairwise_map.mp hnodup)).imp fun ⟨hle, hne⟩ => ?_
  exact joinPath_lt_joinPath directory (lt_of_le_of_ne hle hne)

end QuestFile

namespace Manager

theorem Sound.loadDirectory_value {m : Manager} (hm : m.Sound) (directory : String)
    (entries : Entries) :
    (m.loadDirectory directory (.ok entries)).value =
      let files := (QuestFile.loadEntries directory entries).value
      (.ok ⟨(files.map (fileOutcome m.states)).filterMap Except.toOption,
        (files.map (fileOutcome m.states)).filterMap failure?⟩,
        (m.loadAll ((readable files).map Prod.snd)).2) := by
  rw [loadDirectory]
  simp only [Logged.value_bind, hm.loadFiles_value]
  rfl

/-- The quest files of a directory that could be read, given what came of listing it. -/
def filesRead (directory : String) : Except FileFault Entries → List QuestFile
  | .error _ => []
  | .ok entries => (readable (QuestFile.loadEntries directory entries).value).map Prod.snd

/-- Loading a directory leaves what calls leave: those that load its quest files one by one.  So what
holds after any calls holds after directories have been loaded too. -/
theorem loadDirectory_history (calls : List Call) (directory : String)
    (listing : Except FileFault Entries) :
    ((history calls).loadDirectory directory listing).value.2 =
      history (calls ++ (filesRead directory listing).map Call.load) := by
  cases listing with
  | error fault =>
    rw [filesRead, List.map_nil, List.append_nil]
    rfl
  | ok entries =>
    rw [(sound_history calls).loadDirectory_value, history, history, List.foldl_append]
    exact loadAll_snd _ _

/-- After any calls, what comes of loading a quest file depends on the registered state types alone.
Quest files of distinct names give the same results and the same store in every order: the same
templates, which grant the same rewards, with the same names and state types, and a factory that
compiled as often and keeps as much.  So do the tasks that load the files of a directory, which
lists every name once, if the names of the quests are distinct: in whatever order they run, the
report and the store are those of loading the files one after another.  The report has every file
once, loaded or failed, in the order of the paths. -/
theorem loads_in_any_order (calls : List Call) :
    let m := history calls
    (∀ q, (m.load q).value.1 = outcome m.states q) ∧
    (∀ qs qs' : List QuestFile, (qs.map (·.name)).Nodup → qs'.Perm qs →
      (m.loadAll qs).1 = qs.map (outcome m.states) ∧
      (m.loadAll qs').1 = qs'.map (outcome m.states) ∧
      Agrees (m.loadAll qs').2 (m.loadAll qs).2) ∧
    ∀ (directory : String) (entries : Entries),
      let files := (QuestFile.loadEntries directory entries).value
      let outcomes := files.map (fileOutcome m.states)
      let sequential := (m.loadDirectory directory (.ok entries)).value
      (entries.map Prod.fst).Nodup → ((readable files).map (·.2.name)).Nodup →
      (files.map Prod.fst = QuestFile.paths directory entries ∧
        (files.map Prod.fst).Pairwise (· < ·)) ∧
      ∀ order, order.Perm (tasks files) →
        let concurrent := m.loadInOrder files order
        sequential.1 = .ok concurrent.1 ∧ Agrees concurrent.2 sequential.2 ∧
        concurrent.1.loaded = outcomes.filterMap Except.toOption ∧
        concurrent.1.failed = outcomes.filterMap failure? ∧
        concurrent.1.loaded.length + concurrent.1.failed.length = files.length := by
  intro m
  have hm : m.Sound := sound_history calls
  refine ⟨hm.load_fst, fun qs qs' hqs hperm => ⟨(hm.loadAll qs).2.2.1, (hm.loadAll qs').2.2.1,
    agrees_loadAll calls hqs hperm⟩, ?_⟩
  intro directory entries files outcomes sequential hentries hnames
  have hpaths : files.map Prod.fst = QuestFile.paths directory entries :=
    QuestFile.map_fst_loadEntries directory entries
  have hsorted : (files.map Prod.fst).Pairwise (· < ·) :=
    hpaths ▸ QuestFile.pairwise_paths directory hentries
  have hsequential : sequential = _ := hm.loadDirectory_value directory entries
  refine ⟨⟨hpaths, hsorted⟩, fun order horder => ?_⟩
  intro concurrent
  have hreport := hm.loadInOrder_fst hsorted horder
  refine ⟨?_, ?_, congrArg LoadReport.loaded hreport, congrArg LoadReport.failed hreport, ?_⟩
  · rw [hsequential]
    exact congrArg Except.ok hreport.symm
  · rw [hsequential]
    refine agrees_loadAll calls ?_ (perm_quests horder)
    rw [List.map_map]
    exact hnames
  · rw [show concurrent.1 = _ from hreport]
    exact (Template.length_filterMap_toOption_add outcomes).trans (List.length_map _)

/-- A quest between one with an unknown state type and a file that is none, loaded backwards. -/
theorem loads_in_any_order_backwards :
    let file (text : String) : FileNode := .file (.ok text)
    let entries : Entries := [("broken.quest", file "hunt"),
      ("fishing.quest", file "name = fishing\nstate = lakes"),
      ("hunt.quest", file "name = hunt\nstate = hunts")]
    let m := history [.register "hunts" huntState (.builtin "")]
    let files := (QuestFile.loadEntries "quests" entries).value
    let concurrent := m.loadInOrder files (tasks files).reverse
    (m.loadDirectory "quests" (.ok entries)).value.1 = .ok concurrent.1 ∧
      concurrent.1.loaded.map (·.name) = ["hunt"] ∧
      concurrent.1.failed.map Prod.fst = ["quests/broken.quest", "quests/fishing.quest"] := by
  intro file entries m files concurrent
  have hcandidates : QuestFile.candidates entries = entries := by
    rw [QuestFile.candidates, List.filter_eq_self.mpr (by decide +kernel)]
    exact List.mergeSort_of_pairwise (by decide +kernel)
  have hfiles : (QuestFile.loadEntries "quests" entries).value =
      (QuestFile.loadAll "quests" entries).value :=
    congrArg (fun candidates => (QuestFile.loadAll "quests" candidates).value) hcandidates
  have hnames :
      ((readable (QuestFile.loadEntries "quests" entries).value).map (·.2.name)).Nodup := by
    rw [hfiles]
    decide +kernel
  obtain ⟨-, -, hdirectory⟩ := loads_in_any_order [.register "hunts" huntState (.builtin "")]
  obtain ⟨-, horders⟩ := hdirectory "quests" entries (by decide +kernel) hnames
  obtain ⟨hreport, -, hloaded, hfailed, -⟩ := horders (tasks files).reverse (List.reverse_perm _)
  refine ⟨hreport, ?_, ?_⟩
  · rw [show concurrent.1.loaded = _ from hloaded, hfiles]
    decide +kernel
  · rw [show concurrent.1.failed = _ from hfailed, hfiles]
    decide +kernel

end Manager

end QuestFormula
