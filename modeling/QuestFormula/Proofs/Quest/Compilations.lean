import QuestFormula.Proofs.Quest.Report

/-! How often a manager compiles.  An operation asks for a triple if it loads a quest file, under a
registration in force, that declares a reward of a registered type: the triple of the state type,
the reward type and the formula.  A step lemma says that an operation adds the triples that it asks
for to those that the factory compiled, and an induction over the operations that these are the
triples asked for so far.  The names of templates, state types and reward types are in no triple, so
templates share what they have in common. -/

namespace QuestFormula

namespace Manager

/-- What is asked of a manager itself, directories included. -/
inductive Operation where
  | register (state : String) (S : StateType) (registry : Registry S)
  | load (q : QuestFile)
  | directory (path : String) (listing : Except FileFault Entries)
  | remove (name : String)

/-- The manager after an operation. -/
def step (m : Manager) : Operation → Manager
  | .register state _ registry => (m.registerState state registry).value
  | .load q => (m.load q).value.2
  | .directory path listing => (m.loadDirectory path listing).value.2
  | .remove name => (m.remove name).2

/-- The manager after operations on a new one. -/
def run (ops : List Operation) : Manager := ops.foldl step empty

namespace Operation

/-- The quest files that the operation tries to load. -/
def questFiles : Operation → List QuestFile
  | .load q => [q]
  | .directory path listing => filesRead path listing
  | .register .. | .remove _ => []

/-- The calls that the operation amounts to. -/
def calls : Operation → List Call
  | .register state S registry => [.register state S registry]
  | .load q => [.load q]
  | .directory path listing => (filesRead path listing).map .load
  | .remove name => [.remove name]

end Operation

/-- The registration in force for the name of a state type after operations. -/
def registered? (ops : List Operation) (state : String) : Option Registration :=
  inForce? (ops.flatMap Operation.calls) state

/-- The quest file declares a reward of the triple, with the type registered for its identifier. -/
def Declares (reg : Registration) (q : QuestFile) (d : Descriptor) : Prop :=
  ∃ r ∈ q.rewards, ∃ R, reg.registry.rewards.get? r.rewardType = some R ∧
    d = ⟨reg.state, R, r.formula⟩

/-- After operations, one more loads a quest file that declares a reward of the triple. -/
def Asks (ops : List Operation) (op : Operation) (d : Descriptor) : Prop :=
  ∃ q ∈ op.questFiles, ∃ reg, registered? ops q.state = some reg ∧ Declares reg q d

/-- One of the operations asks for the triple after those before it. -/
def Asked (ops : List Operation) (d : Descriptor) : Prop :=
  ∃ before op later, ops = before ++ op :: later ∧ Asks before op d

/-- The summary of a quest file loaded after operations, if its state type is registered. -/
def summary? (ops : List Operation) (q : QuestFile) : Option TemplateSummary :=
  (registered? ops q.state).map fun reg => summarize q (reg.registry.template q)

/-! ### One operation -/

theorem mem_descriptors_calls {reg : Registration} {q : QuestFile} {d : Descriptor} :
    d ∈ (reg.registry.calls q).filterMap Factory.Call.descriptor? ↔ Declares reg q d := by
  simp only [Registry.calls, Registry.call?, List.filterMap_filterMap, List.mem_filterMap, Declares]
  refine exists_congr fun r => and_congr_right fun _ => ?_
  cases reg.registry.rewards.get? r.rewardType with
  | none => simp
  | some R => simp [Factory.Call.descriptor?, eq_comm]

theorem mem_descriptors_requests {m : Manager} {q : QuestFile} {d : Descriptor} :
    d ∈ (m.requests (.load q)).filterMap Factory.Call.descriptor? ↔
      ∃ reg, m.states.get? q.state = some reg ∧ Declares reg q d := by
  rw [requests]
  cases m.states.get? q.state with
  | none => simp
  | some reg => simp only [mem_descriptors_calls, Option.some.injEq, exists_eq_left']

/-- Loading quest files compiles the triples that they declare, in whatever order they come. -/
theorem Sound.mem_compiled_loadAll {m : Manager} (hm : m.Sound) (qs : List QuestFile)
    (d : Descriptor) : d ∈ (m.loadAll qs).2.factory.compiled ↔
      d ∈ m.factory.compiled ∨
        ∃ q ∈ qs, ∃ reg, m.states.get? q.state = some reg ∧ Declares reg q d := by
  obtain ⟨-, -, -, hfactory⟩ := hm.loadAll qs
  rw [hfactory, hm.factory.mem_compiled_foldl_after, List.filterMap_flatMap, List.mem_flatMap]
  simp only [mem_descriptors_requests]

theorem Sound.compilations_loadAll_perm {m : Manager} (hm : m.Sound) {qs qs' : List QuestFile}
    (hperm : qs'.Perm qs) :
    (m.loadAll qs').2.factory.compilations = (m.loadAll qs).2.factory.compilations := by
  have hfactory := (hm.loadAll qs).1.factory
  have hfactory' := (hm.loadAll qs').1.factory
  rw [hfactory.compilations, hfactory'.compilations]
  refine List.Perm.length_eq ((List.perm_ext_iff_of_nodup hfactory'.nodup_compiled
    hfactory.nodup_compiled).mpr fun d => ?_)
  rw [hm.mem_compiled_loadAll, hm.mem_compiled_loadAll]
  simp only [hperm.mem_iff]

theorem step_history (calls : List Call) (op : Operation) :
    (history calls).step op = history (calls ++ op.calls) := by
  cases op with
  | register state S registry => exact (history_concat calls (.register state S registry)).symm
  | load q => exact (history_concat calls (.load q)).symm
  | remove name => exact (history_concat calls (.remove name)).symm
  | directory path listing => exact loadDirectory_history calls path listing

theorem run_concat (ops : List Operation) (op : Operation) :
    run (ops ++ [op]) = (run ops).step op := by
  rw [run, List.foldl_append]
  rfl

theorem run_eq_history (ops : List Operation) : run ops = history (ops.flatMap Operation.calls) := by
  induction ops using List.reverseRecOn with
  | nil => rfl
  | append_singleton ops op ih =>
    rw [run_concat, ih, step_history, List.flatMap_append, List.flatMap_singleton]

theorem sound_run (ops : List Operation) : (run ops).Sound := run_eq_history ops ▸ sound_history _

theorem get?_states_run (ops : List Operation) (state : String) :
    (run ops).states.get? state = registered? ops state := by
  rw [run_eq_history, get?_states_history, registered?]

/-- The factory after an operation is the one after the loads of its quest files. -/
theorem factory_step (ops : List Operation) (op : Operation) :
    ((run ops).step op).factory = ((run ops).loadAll op.questFiles).2.factory := by
  cases op with
  | register state S registry => rfl
  | load q => rfl
  | remove name => rfl
  | directory path listing =>
    cases listing with
    | error fault => rfl
    | ok entries => rw [step, (sound_run ops).loadDirectory_value]; rfl

theorem mem_compiled_step (ops : List Operation) (op : Operation) (d : Descriptor) :
    d ∈ ((run ops).step op).factory.compiled ↔ d ∈ (run ops).factory.compiled ∨ Asks ops op d := by
  rw [factory_step, (sound_run ops).mem_compiled_loadAll]
  simp only [get?_states_run, Asks]

/-! ### All operations -/

theorem not_asked_nil (d : Descriptor) : ¬Asked [] d := by
  rintro ⟨before, op, later, h, -⟩
  simp at h

theorem asked_concat {ops : List Operation} {op : Operation} {d : Descriptor} :
    Asked (ops ++ [op]) d ↔ Asked ops d ∨ Asks ops op d := by
  constructor
  · rintro ⟨before, op', later, hops, hasks⟩
    rcases List.eq_nil_or_concat' later with rfl | ⟨later, last, rfl⟩
    · obtain ⟨rfl, hop⟩ := List.append_inj' hops rfl
      obtain rfl := (List.cons.inj hop).1
      exact .inr hasks
    · rw [← List.cons_append, ← List.append_assoc] at hops
      obtain ⟨rfl, -⟩ := List.append_inj' hops rfl
      exact .inl ⟨before, op', later, rfl, hasks⟩
  · rintro (⟨before, op', later, rfl, hasks⟩ | hasks)
    · exact ⟨before, op', later ++ [op], by simp, hasks⟩
    · exact ⟨ops, op, [], rfl, hasks⟩

/-- The factory compiled the triples that the operations asked for. -/
theorem mem_compiled_run (ops : List Operation) (d : Descriptor) :
    d ∈ (run ops).factory.compiled ↔ Asked ops d := by
  induction ops using List.reverseRecOn with
  | nil => simp [run, empty, Factory.empty, Factory.compiled, Memo.empty, Memo.keys, not_asked_nil]
  | append_singleton ops op ih => rw [run_concat, mem_compiled_step, ih, asked_concat]

theorem setOf_asked (ops : List Operation) :
    {d | Asked ops d} = ((run ops).factory.compiled.toFinset : Set Descriptor) := by
  ext d
  simp [← mem_compiled_run]

theorem finite_asked (ops : List Operation) : {d | Asked ops d}.Finite :=
  setOf_asked ops ▸ Finset.finite_toSet _

theorem compilations_run (ops : List Operation) :
    (run ops).factory.compilations = {d | Asked ops d}.ncard := by
  have hfactory := (sound_run ops).factory
  rw [setOf_asked, Set.ncard_coe_finset, List.toFinset_card_of_nodup hfactory.nodup_compiled,
    hfactory.compilations]

/-- An operation compiles the triples that it is the first to ask for. -/
theorem compilations_concat (ops : List Operation) (op : Operation) :
    (run (ops ++ [op])).factory.compilations =
      (run ops).factory.compilations + {d | Asks ops op d ∧ ¬Asked ops d}.ncard := by
  have hunion : {d | Asked (ops ++ [op]) d} =
      {d | Asked ops d} ∪ {d | Asks ops op d ∧ ¬Asked ops d} := by
    ext d
    simp only [Set.mem_ofPred_eq, Set.mem_union, asked_concat]
    tauto
  have hfinite : {d | Asks ops op d ∧ ¬Asked ops d}.Finite :=
    (finite_asked (ops ++ [op])).subset (hunion ▸ Set.subset_union_right)
  have hdisjoint : Disjoint {d | Asked ops d} {d | Asks ops op d ∧ ¬Asked ops d} :=
    Set.disjoint_left.mpr fun d hd hnew => hnew.2 hd
  rw [compilations_run, compilations_run, hunion,
    Set.ncard_union_eq hdisjoint (finite_asked ops) hfinite]

theorem compilations_concat_eq_iff {ops : List Operation} {op : Operation} :
    (run (ops ++ [op])).factory.compilations = (run ops).factory.compilations ↔
      ∀ d, Asks ops op d → Asked ops d := by
  have hfinite : {d | Asks ops op d ∧ ¬Asked ops d}.Finite :=
    (finite_asked (ops ++ [op])).subset fun d hd => asked_concat.mpr (.inr hd.1)
  rw [compilations_concat, Nat.add_eq_left, Set.ncard_eq_zero hfinite,
    Set.eq_empty_iff_forall_notMem]
  exact forall_congr' fun d => by simp

theorem factory_concat_of_questFiles_eq_nil {ops : List Operation} {op : Operation}
    (h : op.questFiles = []) : (run (ops ++ [op])).factory = (run ops).factory := by
  rw [run_concat, factory_step, h]
  rfl

theorem toOption_load_run (ops : List Operation) (q : QuestFile) :
    ((run ops).load q).value.1.toOption = summary? ops q := by
  rw [(sound_run ops).load_fst, outcome, get?_states_run, summary?]
  cases registered? ops q.state <;> rfl

theorem loaded_loadDirectory_run (ops : List Operation) (path : String) (entries : Entries) :
    ((run ops).loadDirectory path (.ok entries)).value.1.map LoadReport.loaded =
      .ok ((filesRead path (.ok entries)).filterMap (summary? ops)) := by
  rw [(sound_run ops).loadDirectory_value]
  simp only [Except.map, loaded_eq_summaries, summaries, filesRead]
  refine congrArg Except.ok (List.filterMap_congr fun q _ => ?_)
  rw [← (sound_run ops).load_fst, toOption_load_run]

/-- The tasks that load the files of a directory compile as much in every order. -/
theorem compilations_loadInOrder (ops : List Operation) (path : String) (entries : Entries)
    {order : List ((String × QuestFile) × Nat)}
    (horder : order.Perm (tasks (QuestFile.loadEntries path entries).value)) :
    ((run ops).loadInOrder (QuestFile.loadEntries path entries).value
        order).2.factory.compilations =
      (run (ops ++ [.directory path (.ok entries)])).factory.compilations := by
  rw [run_concat, factory_step]
  exact (sound_run ops).compilations_loadAll_perm (perm_quests horder)

/-- After any operations on a new manager, its factory has compiled as often as there are triples of a
state type, a reward type and a formula among the rewards that the loaded quest files declare, with
the reward type that was registered for the identifier at the load, whether or not the formula
compiled.  A load succeeds exactly if a registration is in force for the name of its state type, and
the report on a directory has those that do.  An operation compiles the triples that none asked for
before, so it compiles nothing exactly if there are none: registering and removing never do, nor
does loading a quest file again under the registration that it was loaded under.  The tasks that load
a directory compile as much in whatever order they run. -/
theorem compilations_count_triples (ops : List Operation) :
    ({d | Asked ops d}.Finite ∧ (run ops).factory.compilations = {d | Asked ops d}.ncard) ∧
    (∀ q, ((run ops).load q).value.1.toOption = summary? ops q) ∧
    (∀ path entries,
      ((run ops).loadDirectory path (.ok entries)).value.1.map LoadReport.loaded =
        .ok ((filesRead path (.ok entries)).filterMap (summary? ops))) ∧
    (∀ op, (run (ops ++ [op])).factory.compilations =
        (run ops).factory.compilations + {d | Asks ops op d ∧ ¬Asked ops d}.ncard ∧
      ((run (ops ++ [op])).factory.compilations = (run ops).factory.compilations ↔
        ∀ d, Asks ops op d → Asked ops d)) ∧
    (∀ state S (registry : Registry S),
      (run (ops ++ [.register state S registry])).factory = (run ops).factory) ∧
    (∀ name, (run (ops ++ [.remove name])).factory = (run ops).factory) ∧
    (∀ before q later, ops = before ++ .load q :: later →
      registered? ops q.state = registered? before q.state →
      (run (ops ++ [.load q])).factory.compilations = (run ops).factory.compilations) ∧
    ∀ path entries order, order.Perm (tasks (QuestFile.loadEntries path entries).value) →
      ((run ops).loadInOrder (QuestFile.loadEntries path entries).value
          order).2.factory.compilations =
        (run (ops ++ [.directory path (.ok entries)])).factory.compilations := by
  refine ⟨⟨finite_asked ops, compilations_run ops⟩, toOption_load_run ops,
    loaded_loadDirectory_run ops, fun op => ⟨compilations_concat ops op, compilations_concat_eq_iff⟩,
    fun state S registry => factory_concat_of_questFiles_eq_nil rfl,
    fun name => factory_concat_of_questFiles_eq_nil rfl, fun before q later hops hreg => ?_,
    fun path entries order => compilations_loadInOrder ops path entries⟩
  refine compilations_concat_eq_iff.mpr fun d ⟨q', hq', hasks⟩ => ?_
  obtain rfl := List.mem_singleton.mp hq'
  rw [hreg] at hasks
  exact ⟨before, .load q', later, hops, q', hq', hasks⟩

/-- The built-in rewards, with the unlock reward under a second name. -/
def keyRewards : Registry huntState :=
  ((Registry.builtin "").register "Key" (BuiltinReward.unlock.type "")).value

/-- A quest with one formula for the unlock reward under both names, a formula that does not compile,
and a reward that is not registered. -/
def keyQuest (name state : String) : QuestFile :=
  ⟨name, state, "", [⟨"UnlockReward", "bonus", 4⟩, ⟨"Key", "bonus", 5⟩, ⟨"XpReward", "kills", 6⟩,
    ⟨"Gold", "bonus", 7⟩], none⟩

/-- The quest is loaded and removed, and its state type is registered under a second name. -/
def keyRun : List Operation :=
  [.register "hunts" huntState keyRewards, .load (keyQuest "hunt" "hunts"), .remove "hunt",
    .register "trials" huntState keyRewards]

/-- Four declared rewards are two triples, which loading the quest again, or as another one for the
second name of the state type, does not compile again. -/
theorem compilations_count_triples_key :
    (run keyRun).factory.compilations = 2 ∧ {d | Asked keyRun d}.ncard = 2 ∧
    (run (keyRun ++ [.load (keyQuest "hunt" "hunts")])).factory.compilations = 2 ∧
    (run (keyRun ++ [.load (keyQuest "trial" "trials")])).factory.compilations = 2 ∧
    ∀ d, Asks keyRun (.load (keyQuest "trial" "trials")) d → Asked keyRun d := by
  have hrun : (run keyRun).factory.compilations = 2 := by decide +kernel
  have htrial : (run (keyRun ++ [.load (keyQuest "trial" "trials")])).factory.compilations = 2 := by
    decide +kernel
  obtain ⟨⟨-, hcount⟩, -, -, hstep, -, -, hreload, -⟩ := compilations_count_triples keyRun
  refine ⟨hrun, hcount.symm.trans hrun, ?_, htrial, (hstep _).2.mp (htrial.trans hrun.symm)⟩
  rw [hreload [.register "hunts" huntState keyRewards] (keyQuest "hunt" "hunts")
    [.remove "hunt", .register "trials" huntState keyRewards] rfl rfl, hrun]

end Manager

end QuestFormula
