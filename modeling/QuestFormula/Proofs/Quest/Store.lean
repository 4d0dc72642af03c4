import QuestFormula.Proofs.Quest.Template
import QuestFormula.Quest.Manager

/-! A manager in use.  What it holds under a name is decided by the last call that had an effect on
the name: a load whose state type was registered, or a removal.  `LastLoad` says so of the calls
alone, with the registration that was in force at the load.  A step lemma for each kind of call and
an induction over the calls show that the store follows it, and that the factory of a manager is one
in use. -/

namespace QuestFormula

/-! ### Tables -/

theorem pairwise_mergeSort_by {α : Type} (key : α → String) (l : List α) :
    (l.mergeSort fun a b => decide (key a ≤ key b)).Pairwise fun a b => key a ≤ key b := by
  have hsorted : (l.mergeSort fun a b => decide (key a ≤ key b)).Pairwise
      fun a b => decide (key a ≤ key b) = true :=
    List.pairwise_mergeSort (fun a b c => by simpa using le_trans)
      (fun a b => by simpa using le_total _ _) l
  exact hsorted.imp of_decide_eq_true

namespace Table

variable {α : Type}

/-- Every name has one entry. -/
def Distinct (t : Table α) : Prop := (t.entries.map Prod.fst).Nodup

theorem distinct_empty : (empty : Table α).Distinct := List.nodup_nil

theorem Distinct.erase {t : Table α} (h : t.Distinct) (name : String) : (t.erase name).Distinct :=
  List.Nodup.sublist (List.filter_sublist.map Prod.fst) h

theorem Distinct.insert {t : Table α} (h : t.Distinct) (name : String) (value : α) :
    (t.insert name value).Distinct := by
  refine List.nodup_cons.mpr ⟨?_, h.erase name⟩
  simp [Table.erase]

theorem mem_names {t : Table α} {name : String} : name ∈ t.names ↔ t.contains name = true := by
  rw [names, List.mem_mergeSort, contains, ← not_iff_not, Bool.not_eq_true,
    Option.isSome_eq_false_iff, Option.isNone_iff_eq_none, get?, List.lookup_eq_none_iff]
  simp only [List.mem_map, not_exists, not_and, bne_iff_ne]
  exact ⟨fun h e he hname => h e he hname.symm, fun h e he hname => h e he hname.symm⟩

theorem length_names (t : Table α) : t.names.length = t.size := by
  rw [names, List.length_mergeSort, List.length_map, size]

theorem Distinct.pairwise_names {t : Table α} (h : t.Distinct) : t.names.Pairwise (· < ·) := by
  have hsorted : t.names.Pairwise (· ≤ ·) := pairwise_mergeSort_by id _
  have hnodup : t.names.Nodup := (List.mergeSort_perm _ _).nodup_iff.mpr h
  exact (hsorted.and hnodup).imp fun ⟨hle, hne⟩ => lt_of_le_of_ne hle hne

end Table

namespace Manager

/-! ### Calls -/

/-- What can be asked of a manager, its factory included. -/
inductive Call where
  | register (state : String) (S : StateType) (registry : Registry S)
  | load (q : QuestFile)
  | remove (name : String)
  | request (call : Factory.Call)

/-- The manager after a call. -/
def after (m : Manager) : Call → Manager
  | .register state _ registry => (m.registerState state registry).value
  | .load q => (m.load q).value.2
  | .remove name => (m.remove name).2
  | .request call => { m with factory := m.factory.after call }

/-- The manager after calls of an empty one. -/
def history (calls : List Call) : Manager := calls.foldl after empty

theorem history_concat (calls : List Call) (call : Call) :
    history (calls ++ [call]) = (history calls).after call := by
  rw [history, List.foldl_append]
  rfl

/-- What a call registers under the name of a state type. -/
def Call.registration? (state : String) : Call → Option Registration
  | .register name S registry => if name = state then some ⟨S, registry⟩ else none
  | .load _ | .remove _ | .request _ => none

/-- The registration in force for the name of a state type after calls: the last one. -/
def inForce? (calls : List Call) (state : String) : Option Registration :=
  calls.reverse.findSome? (Call.registration? state)

/-- A call that, after others, loads or removes the template of a name. -/
def Effective (calls : List Call) (name : String) : Call → Prop
  | .load q => q.name = name ∧ (inForce? calls q.state).isSome
  | .remove removed => removed = name
  | .register .. | .request _ => False

/-- The last effective call on the name loads the quest file, under the registration in force. -/
def LastLoad (calls : List Call) (name : String) (q : QuestFile) (reg : Registration) : Prop :=
  ∃ before later, calls = before ++ .load q :: later ∧ q.name = name ∧
    inForce? before q.state = some reg ∧
    ∀ between call rest, later = between ++ call :: rest →
      ¬Effective (before ++ .load q :: between) name call

theorem not_lastLoad_nil (name : String) (q : QuestFile) (reg : Registration) :
    ¬LastLoad [] name q reg := by
  rintro ⟨before, later, h, -⟩
  simp at h

/-- One more call is the last load of a name, or has no effect on the one that was. -/
theorem lastLoad_concat {calls : List Call} {call : Call} {name : String} {q : QuestFile}
    {reg : Registration} :
    LastLoad (calls ++ [call]) name q reg ↔
      call = .load q ∧ q.name = name ∧ inForce? calls q.state = some reg ∨
      LastLoad calls name q reg ∧ ¬Effective calls name call := by
  constructor
  · rintro ⟨before, later, hcalls, hname, hreg, hlater⟩
    rcases List.eq_nil_or_concat' later with rfl | ⟨later, last, rfl⟩
    · obtain ⟨rfl, hcall⟩ := List.append_inj' hcalls rfl
      exact .inl ⟨(List.cons.inj hcall).1, hname, hreg⟩
    · rw [← List.cons_append, ← List.append_assoc] at hcalls
      obtain ⟨rfl, hcall⟩ := List.append_inj' hcalls rfl
      obtain rfl := (List.cons.inj hcall).1
      refine .inr ⟨⟨before, later, rfl, hname, hreg, fun between call' rest h => ?_⟩,
        hlater later call [] rfl⟩
      exact hlater between call' (rest ++ [call]) (by rw [h, List.append_assoc]; rfl)
  · rintro (⟨rfl, hname, hreg⟩ | ⟨⟨before, later, rfl, hname, hreg, hlater⟩, hcall⟩)
    · exact ⟨calls, [], rfl, hname, hreg, fun between call rest h => by simp at h⟩
    · refine ⟨before, later ++ [call], by simp, hname, hreg, fun between call' rest h => ?_⟩
      rcases List.eq_nil_or_concat' rest with rfl | ⟨rest, last, rfl⟩
      · obtain ⟨rfl, hcall'⟩ := List.append_inj' h rfl
        obtain rfl := (List.cons.inj hcall').1
        exact hcall
      · rw [← List.cons_append, ← List.append_assoc] at h
        exact hlater between call' rest (List.append_inj' h rfl).1

theorem lastLoad_concat_of_not_effective {calls : List Call} {call : Call} {name : String}
    {q : QuestFile} {reg : Registration} (h : ¬Effective calls name call) :
    LastLoad (calls ++ [call]) name q reg ↔ LastLoad calls name q reg := by
  rw [lastLoad_concat]
  refine ⟨fun hlast => ?_, fun hlast => .inr ⟨hlast, h⟩⟩
  rcases hlast with ⟨rfl, hname, hreg⟩ | ⟨hlast, -⟩
  · exact absurd ⟨hname, by rw [hreg]; rfl⟩ h
  · exact hlast

/-! ### One call -/

/-- The template of a quest file as it is stored. -/
def loaded (q : QuestFile) (reg : Registration) : LoadedTemplate :=
  ⟨q.state, reg.state, reg.registry.template q⟩

variable {m : Manager} {q : QuestFile}

theorem load_of_unregistered (h : m.states.get? q.state = none) :
    (m.load q).value = (.error (.unknownState q.state), m) := by
  rw [load, h]
  rfl

theorem load_of_registered {reg : Registration} (hf : m.factory.Sound)
    (h : m.states.get? q.state = some reg) :
    (m.load q).value = (.ok (summarize q (reg.registry.template q)),
      ⟨(reg.registry.calls q).foldl Factory.after m.factory, m.states,
        m.templates.insert q.name (loaded q reg)⟩) := by
  rw [load, h]
  simp only [Logged.value_bind, Template.ofFile_value hf]
  split
  · rfl
  · rfl

/-- What a call asks of the factory of a manager. -/
def requests (m : Manager) : Call → List Factory.Call
  | .load q => match m.states.get? q.state with
    | some reg => reg.registry.calls q
    | none => []
  | .request call => [call]
  | .register .. | .remove _ => []

theorem factory_after (hf : m.factory.Sound) (call : Call) :
    (m.after call).factory = (m.requests call).foldl Factory.after m.factory := by
  cases call with
  | register state S registry => rfl
  | remove name => rfl
  | request call => rfl
  | load q =>
    cases h : m.states.get? q.state with
    | none => simp only [after, requests, load_of_unregistered h, h, List.foldl_nil]
    | some reg => simp only [after, requests, load_of_registered hf h, h]

/-- The factory is one in use, and every template has one name. -/
structure Sound (m : Manager) : Prop where
  factory : m.factory.Sound
  templates : m.templates.Distinct

theorem sound_empty : Sound empty := ⟨Factory.sound_empty, Table.distinct_empty⟩

namespace Sound

theorem load_cases (hm : m.Sound) (q : QuestFile) :
    (m.states.get? q.state = none ∧ (m.load q).value = (.error (.unknownState q.state), m)) ∨
    ∃ reg, m.states.get? q.state = some reg ∧
      (m.load q).value = (.ok (summarize q (reg.registry.template q)),
        ⟨(reg.registry.calls q).foldl Factory.after m.factory, m.states,
          m.templates.insert q.name (loaded q reg)⟩) := by
  cases h : m.states.get? q.state with
  | none => exact .inl ⟨rfl, load_of_unregistered h⟩
  | some reg => exact .inr ⟨reg, rfl, load_of_registered hm.factory h⟩

theorem after (hm : m.Sound) (call : Call) : (m.after call).Sound := by
  refine ⟨?_, ?_⟩
  · rw [factory_after hm.factory]
    exact hm.factory.foldl_after _
  · cases call with
    | register state S registry => exact hm.templates
    | request call => exact hm.templates
    | remove name => exact hm.templates.erase name
    | load q =>
      rw [Manager.after]
      rcases hm.load_cases q with ⟨-, h⟩ | ⟨reg, -, h⟩
      · rw [h]
        exact hm.templates
      · rw [h]
        exact hm.templates.insert q.name _

theorem get?_states_after (hm : m.Sound) (call : Call) (state : String) :
    (m.after call).states.get? state = (call.registration? state).or (m.states.get? state) := by
  cases call with
  | register name S registry =>
    by_cases h : name = state
    · subst h
      simp [Manager.after, registerState, Call.registration?]
    · simp [Manager.after, registerState, Call.registration?, h, Table.get?_insert_of_ne _ _ h]
  | load q =>
    rw [Manager.after]
    rcases hm.load_cases q with ⟨-, h⟩ | ⟨reg, -, h⟩
    · rw [h]
      rfl
    · rw [h]
      rfl
  | remove name => rfl
  | request call => rfl

end Sound

/-! ### All calls -/

theorem sound_history (calls : List Call) : (history calls).Sound := by
  induction calls using List.reverseRecOn with
  | nil => exact sound_empty
  | append_singleton calls call ih =>
    rw [history_concat]
    exact ih.after call

/-- The factory of a manager is one in use. -/
theorem exists_factory_history (calls : List Call) :
    ∃ requests, (history calls).factory = Factory.history requests := by
  induction calls using List.reverseRecOn with
  | nil => exact ⟨[], rfl⟩
  | append_singleton calls call ih =>
    obtain ⟨requests, h⟩ := ih
    refine ⟨requests ++ (history calls).requests call, ?_⟩
    rw [history_concat, factory_after (sound_history calls).factory, h, Factory.history_append]

theorem inForce?_concat (calls : List Call) (call : Call) (state : String) :
    inForce? (calls ++ [call]) state = (call.registration? state).or (inForce? calls state) := by
  rw [inForce?, List.reverse_append, List.reverse_singleton, List.singleton_append,
    List.findSome?_cons]
  cases call.registration? state with
  | none => rfl
  | some reg => rfl

theorem get?_states_history (calls : List Call) (state : String) :
    (history calls).states.get? state = inForce? calls state := by
  induction calls using List.reverseRecOn with
  | nil => rfl
  | append_singleton calls call ih =>
    rw [history_concat, (sound_history calls).get?_states_after, ih, inForce?_concat]

theorem get?_templates_after_of_not_effective {calls : List Call} {call : Call} {name : String}
    (h : ¬Effective calls name call) :
    ((history calls).after call).templates.get? name = (history calls).templates.get? name := by
  cases call with
  | register state S registry => rfl
  | request call => rfl
  | remove removed => exact Table.get?_erase_of_ne _ h
  | load q =>
    rw [after]
    rcases (sound_history calls).load_cases q with ⟨-, hload⟩ | ⟨reg, hreg, hload⟩
    · rw [hload]
    · rw [get?_states_history] at hreg
      rw [hload]
      exact Table.get?_insert_of_ne _ _ fun hname => h ⟨hname, by rw [hreg]; rfl⟩

/-- A name holds what its last load stored. -/
theorem get?_templates_history (calls : List Call) (name : String) (t : LoadedTemplate) :
    (history calls).templates.get? name = some t ↔
      ∃ q reg, LastLoad calls name q reg ∧ t = loaded q reg := by
  induction calls using List.reverseRecOn generalizing t with
  | nil => simp [history, empty, not_lastLoad_nil]
  | append_singleton calls call ih =>
    rw [history_concat]
    by_cases h : Effective calls name call
    · cases call with
      | register state S registry => exact absurd h id
      | request call => exact absurd h id
      | remove removed =>
        obtain rfl : removed = name := h
        simp [lastLoad_concat, after, remove, Effective]
      | load q =>
        obtain ⟨rfl, hsome⟩ := h
        obtain ⟨reg, hreg⟩ := Option.isSome_iff_exists.mp hsome
        have hload := load_of_registered (sound_history calls).factory
          ((get?_states_history calls q.state).trans hreg)
        rw [after, hload]
        simp [lastLoad_concat, Effective, hreg, eq_comm]
    · rw [get?_templates_after_of_not_effective h, ih]
      simp only [lastLoad_concat_of_not_effective h]

/-! ### What can be observed -/

theorem template?_eq_some_iff {S : StateType} {name : String} {t : Template S} :
    m.template? S name = some t ↔ ∃ state, m.templates.get? name = some ⟨state, S, t⟩ := by
  rw [template?]
  cases m.templates.get? name with
  | none => simp
  | some stored =>
    obtain ⟨state, S', t'⟩ := stored
    by_cases h : S' = S
    · subst h
      simp
    · simp [h]

theorem template?_history {calls : List Call} {S : StateType} {name : String} {t : Template S} :
    (history calls).template? S name = some t ↔
      ∃ q registry, LastLoad calls name q ⟨S, registry⟩ ∧ t = registry.template q := by
  simp only [template?_eq_some_iff, get?_templates_history]
  constructor
  · rintro ⟨state, q, ⟨S', registry⟩, hlast, ht⟩
    cases ht
    exact ⟨q, registry, hlast, rfl⟩
  · rintro ⟨q, registry, hlast, rfl⟩
    exact ⟨q.state, q, ⟨S, registry⟩, hlast, rfl⟩

theorem stateOf?_history {calls : List Call} {name state : String} :
    (history calls).stateOf? name = some state ↔
      ∃ q reg, LastLoad calls name q reg ∧ q.state = state := by
  simp only [stateOf?, Option.map_eq_some_iff, get?_templates_history]
  constructor
  · rintro ⟨_, ⟨q, reg, hlast, rfl⟩, rfl⟩
    exact ⟨q, reg, hlast, rfl⟩
  · rintro ⟨q, reg, hlast, rfl⟩
    exact ⟨_, ⟨q, reg, hlast, rfl⟩, rfl⟩

theorem contains_templates_history {calls : List Call} {name : String} :
    (history calls).templates.contains name = true ↔ ∃ q reg, LastLoad calls name q reg := by
  rw [Table.contains, Option.isSome_iff_exists]
  simp only [get?_templates_history]
  constructor
  · rintro ⟨_, q, reg, hlast, -⟩
    exact ⟨q, reg, hlast⟩
  · rintro ⟨q, reg, hlast⟩
    exact ⟨_, q, reg, hlast, rfl⟩

/-- After any calls, a name has a template for a state type exactly if the last effective call on it
loaded a quest file while that type was in force for the file's state name.  The template is what
the quest file and the registry of that time make with any factory, and the name of the state type
is that of the quest file.  The names are those with a template, in order.  Loading a quest file fails
where its state type is unknown, and then changes nothing, and succeeds otherwise.  Removing tells
whether there was a template and is felt under no other name, and registering under none. -/
theorem store_follows_calls (calls : List Call) :
    let m := history calls
    (∀ S name, (m.template? S name).isSome ↔ ∃ q registry, LastLoad calls name q ⟨S, registry⟩) ∧
    (∀ S name t, m.template? S name = some t ↔ ∃ q registry, LastLoad calls name q ⟨S, registry⟩ ∧
      ∀ requests, t = (Template.ofFile q registry (Factory.history requests)).value.1) ∧
    (∀ name state, m.stateOf? name = some state ↔
      ∃ q reg, LastLoad calls name q reg ∧ q.state = state) ∧
    (m.templateNames.Pairwise (· < ·) ∧ m.templateCount = m.templateNames.length ∧
      ∀ name, name ∈ m.templateNames ↔ ∃ S, (m.template? S name).isSome) ∧
    (∀ q, inForce? calls q.state = none →
      (m.load q).value = (.error (.unknownState q.state), m)) ∧
    (∀ q, (inForce? calls q.state).isSome → ∃ summary, (m.load q).value.1 = .ok summary) ∧
    (∀ name, ((m.remove name).1 = true ↔ name ∈ m.templateNames) ∧
      name ∉ (m.remove name).2.templateNames ∧ ∀ other ≠ name,
        (m.remove name).2.stateOf? other = m.stateOf? other ∧
        ∀ S, (m.remove name).2.template? S other = m.template? S other) ∧
    ∀ state S (registry : Registry S), (m.registerState state registry).value.templates =
      m.templates := by
  intro m
  have hm : m.Sound := sound_history calls
  have hisSome (S : StateType) (name : String) :
      (m.template? S name).isSome ↔ ∃ q registry, LastLoad calls name q ⟨S, registry⟩ := by
    rw [Option.isSome_iff_exists]
    simp only [m, template?_history]
    exact ⟨fun ⟨_, q, registry, hlast, _⟩ => ⟨q, registry, hlast⟩,
      fun ⟨q, registry, hlast⟩ => ⟨_, q, registry, hlast, rfl⟩⟩
  refine ⟨hisSome, fun S name t => ?_, fun name state => stateOf?_history,
    ⟨hm.templates.pairwise_names, m.templates.length_names.symm, fun name => ?_⟩, fun q hq => ?_,
    fun q hq => ?_, fun name => ⟨?_, ?_, fun other hother => ⟨?_, fun S => ?_⟩⟩,
    fun state S registry => rfl⟩
  · rw [template?_history]
    refine exists_congr fun q => exists_congr fun registry => and_congr_right fun _ => ?_
    have hvalue (requests : List Factory.Call) :=
      congrArg Prod.fst (Template.ofFile_value (Factory.sound_history requests) q registry)
    exact ⟨fun ht requests => ht.trans (hvalue requests).symm,
      fun ht => (ht []).trans (hvalue [])⟩
  · rw [templateNames, Table.mem_names, contains_templates_history]
    simp only [hisSome]
    exact ⟨fun ⟨q, ⟨S, registry⟩, hlast⟩ => ⟨S, q, registry, hlast⟩,
      fun ⟨S, q, registry, hlast⟩ => ⟨q, ⟨S, registry⟩, hlast⟩⟩
  · exact load_of_unregistered ((get?_states_history calls q.state).trans hq)
  · obtain ⟨reg, hreg⟩ := Option.isSome_iff_exists.mp hq
    exact ⟨_, congrArg Prod.fst
      (load_of_registered hm.factory ((get?_states_history calls q.state).trans hreg))⟩
  · exact Table.mem_names.symm
  · rw [templateNames, Table.mem_names, Table.contains]
    simp [remove]
  · rw [stateOf?, stateOf?, remove, Table.get?_erase_of_ne _ (Ne.symm hother)]
  · rw [template?, template?, remove, Table.get?_erase_of_ne _ (Ne.symm hother)]

/-- A template stays what it was loaded as when the name of its state type is registered for another
type, when its quest file is loaded again for an unknown one, and when another is removed. -/
theorem store_follows_calls_reload :
    let file (name state : String) : QuestFile :=
      ⟨name, state, "", [⟨"UnlockReward", "bonus", 4⟩], none⟩
    let registry : Registry huntState := .builtin ""
    let calls : List Call := [.register "hunts" huntState registry, .load (file "hunt" "hunts"),
      .register "hunts" ⟨"Empty", .nil⟩ .empty, .load (file "hunt" "fishing"), .remove "fishing"]
    (history calls).stateOf? "hunt" = some "hunts" ∧
      (history calls).template? huntState "hunt" =
        some (Template.ofFile (file "hunt" "hunts") registry Factory.empty).value.1 := by
  intro file registry calls
  have hlast : LastLoad calls "hunt" (file "hunt" "hunts") ⟨huntState, registry⟩ := by
    refine ⟨[.register "hunts" huntState registry], [.register "hunts" ⟨"Empty", .nil⟩ .empty,
      .load (file "hunt" "fishing"), .remove "fishing"], rfl, rfl, rfl, ?_⟩
    intro between call rest h
    rcases between with _ | ⟨_, _ | ⟨_, _ | ⟨_, between⟩⟩⟩
    · cases h
      exact id
    · cases h
      exact fun h => Bool.false_ne_true h.2
    · cases h
      simp [Effective]
    · simp at h
  obtain ⟨-, htemplate, hstate, -⟩ := store_follows_calls calls
  have hofFile (requests : List Factory.Call) :
      (Template.ofFile (file "hunt" "hunts") registry Factory.empty).value.1 =
        (Template.ofFile (file "hunt" "hunts") registry (Factory.history requests)).value.1 := by
    rw [Template.ofFile_value Factory.sound_empty,
      Template.ofFile_value (Factory.sound_history requests)]
  exact ⟨(hstate "hunt" "hunts").mpr ⟨_, _, hlast, rfl⟩,
    (htemplate huntState "hunt" _).mpr ⟨_, registry, hlast, hofFile⟩⟩

end Manager

end QuestFormula
