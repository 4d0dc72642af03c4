import QuestFormula.Proofs.Evaluator.Compilation
import QuestFormula.Proofs.Factory.History
import QuestFormula.Quest.Template

/-! Rewards of a quest file, each on its own.  What becomes of a declared one is `Registry.entry`,
a function of the declaration alone: compiled if its type is registered and its formula compiles for
the type registered last, and disabled for the one reason otherwise.  Compiling the declarations one
after another, with a factory that has a history, gives their entries in order and calls the factory
for the registered ones only.  A template grants the direct value of every formula that it has. -/

namespace QuestFormula

/-! ### Registries -/

namespace Registry

variable {S : StateType}

/-- The registry after registrations, the earliest first. -/
def ofList (registrations : List (String × RewardType)) : Registry S :=
  registrations.foldl (fun registry r => (registry.register r.1 r.2).value) empty

theorem rewards_register (registry : Registry S) (name : String) (R : RewardType) :
    (registry.register name R).value.rewards = registry.rewards.insert name R := by
  rw [register]
  split
  · rfl
  · rfl

theorem ofList_concat (registrations : List (String × RewardType)) (name : String)
    (R : RewardType) :
    (ofList (registrations ++ [(name, R)]) : Registry S) =
      ((ofList registrations : Registry S).register name R).value := by
  rw [ofList, List.foldl_append]
  rfl

/-- The last registration under a name counts. -/
theorem get?_ofList (registrations : List (String × RewardType)) (name : String) :
    (ofList registrations : Registry S).rewards.get? name = registrations.reverse.lookup name := by
  induction registrations using List.reverseRecOn with
  | nil => rfl
  | append_singleton registrations r ih =>
    obtain ⟨known, R⟩ := r
    rw [ofList_concat, rewards_register, List.reverse_append, List.reverse_singleton,
      List.singleton_append]
    by_cases h : known = name
    · subst h
      rw [Table.get?_insert_self, List.lookup_cons_self]
    · rw [Table.get?_insert_of_ne _ _ h, ih, List.lookup_cons,
        beq_eq_false_iff_ne.mpr (Ne.symm h)]

theorem builtin_eq_ofList (scope : String) :
    (builtin scope : Registry S) =
      ofList (BuiltinReward.all.map fun reward => (reward.kind, reward.type scope)) := rfl

/-- The reward disabled for an error. -/
def disabledReward (quest : String) (r : RewardLine) (e : QuestError) : DisabledReward :=
  ⟨quest, r.rewardType, r.formula, e.message⟩

/-- What becomes of a declared reward of a quest. -/
def entry (registry : Registry S) (quest : String) (r : RewardLine) :
    Except DisabledReward (TemplateReward S) :=
  match registry.rewards.get? r.rewardType with
  | none => .error (disabledReward quest r (.unknownReward r.rewardType))
  | some R =>
    match Descriptor.evaluator ⟨S, R, r.formula⟩ with
    | .ok e => .ok ⟨r.rewardType, e⟩
    | .error e => .error (disabledReward quest r (.ofFormula e))

/-- What a declared reward asks of a factory. -/
def call? (registry : Registry S) (r : RewardLine) : Option Factory.Call :=
  (registry.rewards.get? r.rewardType).map fun R => .evaluator ⟨S, R, r.formula⟩ S R

theorem entry_eq_ok_iff {registry : Registry S} {quest : String} {r : RewardLine}
    {reward : TemplateReward S} :
    registry.entry quest r = .ok reward ↔ ∃ R e, registry.rewards.get? r.rewardType = some R ∧
      Descriptor.evaluator ⟨S, R, r.formula⟩ = .ok e ∧ reward = ⟨r.rewardType, e⟩ := by
  rw [entry]
  cases registry.rewards.get? r.rewardType with
  | none => simp
  | some R =>
    simp only [Option.some.injEq, exists_and_left, exists_eq_left']
    cases Descriptor.evaluator ⟨S, R, r.formula⟩ with
    | error error => simp
    | ok e => simp [eq_comm]

theorem entry_eq_error_iff {registry : Registry S} {quest : String} {r : RewardLine}
    {reward : DisabledReward} :
    registry.entry quest r = .error reward ↔
      registry.rewards.get? r.rewardType = none ∧
        reward = disabledReward quest r (.unknownReward r.rewardType) ∨
      ∃ R error, registry.rewards.get? r.rewardType = some R ∧
        Descriptor.evaluator ⟨S, R, r.formula⟩ = .error error ∧
        reward = disabledReward quest r (.ofFormula error) := by
  rw [entry]
  cases registry.rewards.get? r.rewardType with
  | none => simp [eq_comm]
  | some R =>
    simp only [reduceCtorEq, false_and, false_or, Option.some.injEq, exists_and_left,
      exists_eq_left']
    cases Descriptor.evaluator ⟨S, R, r.formula⟩ with
    | error error => simp [eq_comm]
    | ok e => simp

end Registry

/-! ### Declared rewards one after another -/

/-- The error, if it is one. -/
def failure? {ε α : Type} : Except ε α → Option ε
  | .error e => some e
  | .ok _ => none

/-- The template of a quest file with the entries of its rewards. -/
def Registry.template {S : StateType} (registry : Registry S) (q : QuestFile) : Template S :=
  let entries := q.rewards.map (registry.entry q.name)
  ⟨q.name, q.description, entries.filterMap Except.toOption, entries.filterMap failure?⟩

/-- What the declared rewards of a quest file ask of a factory, in order. -/
def Registry.calls {S : StateType} (registry : Registry S) (q : QuestFile) : List Factory.Call :=
  q.rewards.filterMap registry.call?

namespace Template

variable {S : StateType}

theorem compileReward_of_unregistered {registry : Registry S} {r : RewardLine}
    (h : registry.rewards.get? r.rewardType = none) (quest : String) (f : Factory) :
    (compileReward registry quest f r).value = (registry.entry quest r, f) := by
  rw [compileReward, Registry.compile, Registry.entry, h]
  rfl

theorem compileReward_of_registered {f : Factory} (hf : f.Sound) {registry : Registry S}
    {r : RewardLine} {R : RewardType} (h : registry.rewards.get? r.rewardType = some R)
    (quest : String) :
    (compileReward registry quest f r).value =
      (registry.entry quest r, f.after (.evaluator ⟨S, R, r.formula⟩ S R)) := by
  let d : Descriptor := ⟨S, R, r.formula⟩
  have hrequest : (f.request S R r.formula).value =
      (d.evaluator.map (Compiled.mk (f.compiled.idxOf d)), f.after (.evaluator d S R)) := by
    rw [← hf.getOrCompile_fst d, Factory.after, f.getOrCompile_of_eq d]
  rw [compileReward, Registry.compile, Registry.entry, h]
  simp only [Logged.value_bind, hrequest]
  cases Descriptor.evaluator ⟨S, R, r.formula⟩ with
  | error error => rfl
  | ok e => rfl

/-- A declared reward becomes its entry, and the factory answers its call if it makes one. -/
theorem compileReward_value {f : Factory} (hf : f.Sound) (registry : Registry S) (quest : String)
    (r : RewardLine) :
    (compileReward registry quest f r).value =
      (registry.entry quest r, (registry.call? r).toList.foldl Factory.after f) := by
  cases h : registry.rewards.get? r.rewardType with
  | none =>
    rw [compileReward_of_unregistered h, Registry.call?, h]
    rfl
  | some R =>
    rw [compileReward_of_registered hf h, Registry.call?, h]
    rfl

theorem compileRewards_value {f : Factory} (hf : f.Sound) (registry : Registry S) (quest : String)
    (rs : List RewardLine) :
    (compileRewards registry quest f rs).value =
      (((rs.map (registry.entry quest)).filterMap Except.toOption,
        (rs.map (registry.entry quest)).filterMap failure?),
        (rs.filterMap registry.call?).foldl Factory.after f) := by
  induction rs generalizing f with
  | nil => rfl
  | cons r rs ih =>
    have hrest := ih (hf.foldl_after (registry.call? r).toList)
    have hcalls : (r :: rs).filterMap registry.call? =
        (registry.call? r).toList ++ rs.filterMap registry.call? := by
      rw [List.filterMap_cons]
      cases registry.call? r <;> rfl
    rw [compileRewards]
    simp only [Logged.value_bind, compileReward_value hf registry quest r, hrest, hcalls,
      List.foldl_append]
    cases h : registry.entry quest r with
    | ok reward =>
      rw [List.map_cons, h]
      rfl
    | error reward =>
      rw [List.map_cons, h]
      rfl

/-- A quest file becomes its template, whatever the factory was asked before. -/
theorem ofFile_value {f : Factory} (hf : f.Sound) (q : QuestFile) (registry : Registry S) :
    (ofFile q registry f).value =
      (registry.template q, (registry.calls q).foldl Factory.after f) := by
  rw [ofFile]
  simp only [Logged.value_bind, compileRewards_value hf registry q.name q.rewards]
  rfl

/-- Every declared reward is in one of the two lists. -/
theorem length_filterMap_toOption_add {ε α : Type} (entries : List (Except ε α)) :
    (entries.filterMap Except.toOption).length + (entries.filterMap failure?).length =
      entries.length := by
  induction entries with
  | nil => rfl
  | cons entry entries ih =>
    cases entry with
    | ok a =>
      simp only [List.filterMap_cons, Except.toOption, failure?, List.length_cons]
      omega
    | error e =>
      simp only [List.filterMap_cons, Except.toOption, failure?, List.length_cons]
      omega

end Template

/-! ### Granting -/

theorem Template.value_grant {S : StateType} (t : Template S) (state : S.State) :
    (t.grant state).value.value = t.rewards.map fun r => r.evaluator.evaluate state := by
  rw [grant]
  show List.map _ (t.rewards.mapM (·.grant t.id state) : Traced _ _).value = _
  rw [Traced.value_mapM, List.map_map]
  rfl

/-- An evaluator has its formula, whose value it computes on every state, and the one constructor of
its reward type. -/
theorem Descriptor.evaluator_eq_ok {d : Descriptor} {e : Evaluator d.state}
    (h : d.evaluator = .ok e) :
    e.formula = d.formula ∧ ∃ expr parameter, parse d.formula = .ok expr ∧
      d.reward.constructors = [parameter] ∧ ∀ state,
        expr.valueOn? (Catalog.build d.state) d.formula state = some (e.evaluateRaw state) ∧
        e.evaluate state = ⟨d.reward, parameter, parameter.ofFloat (e.evaluateRaw state)⟩ := by
  rw [evaluator] at h
  cases hc : Factory.compileWith (Catalog.build d.state) d.reward d.formula with
  | error error =>
    rw [hc] at h
    cases h
  | ok made =>
    rw [hc] at h
    cases h
    obtain ⟨expr, bound, hparse, hresolve, hcompile⟩ := Factory.compileWith_eq_ok_iff.mp hc
    obtain ⟨readers, parameter, hread, hparameter, hmade⟩ :=
      Catalog.compile_eq_ok hresolve hcompile
    rw [hmade]
    refine ⟨rfl, expr, parameter, hparse, hparameter, fun state => ⟨?_, rfl⟩⟩
    rw [Evaluator.evaluateRaw_eq, Code.run_ofExpr]
    exact (Catalog.resolve_eq_ok hresolve).2.value (hread.slotsHold state)

/-- Loading a quest file makes one entry of each declared reward, in order.  An entry depends on the
declaration and the registrations alone: it has the type identifier and the formula if the type is
registered and the formula compiles for the type registered last, and is disabled otherwise, with
the text of the one error.  The factory answers as many calls as there are registered declarations,
and one that is not registered leaves it as it was.  The template grants one reward for each entry,
in order, which is built by the one constructor of its type from the value of its formula. -/
theorem Template.ofFile_isolates (S : StateType) (registrations : List (String × RewardType))
    (calls : List Factory.Call) (q : QuestFile) :
    let registry : Registry S := .ofList registrations
    let registered? (name : String) := registrations.reverse.lookup name
    let entries := q.rewards.map (registry.entry q.name)
    let result := (ofFile q registry (Factory.history calls)).value
    (result.1.id = q.name ∧ result.1.description = q.description ∧
      result.1.rewards = entries.filterMap Except.toOption ∧
      result.1.disabled = entries.filterMap failure? ∧
      result.1.rewards.length + result.1.disabled.length = q.rewards.length) ∧
    (∀ quest r reward, registry.entry quest r = .ok reward ↔ ∃ R e,
      registered? r.rewardType = some R ∧ Descriptor.evaluator ⟨S, R, r.formula⟩ = .ok e ∧
      reward = ⟨r.rewardType, e⟩) ∧
    (∀ quest r reward, registry.entry quest r = .ok reward →
      reward.rewardType = r.rewardType ∧ reward.evaluator.formula = r.formula) ∧
    (∀ quest r reward, registry.entry quest r = .error reward ↔
      registered? r.rewardType = none ∧ reward = ⟨quest, r.rewardType, r.formula,
        (QuestError.unknownReward r.rewardType).message⟩ ∨
      ∃ R error, registered? r.rewardType = some R ∧
        Descriptor.evaluator ⟨S, R, r.formula⟩ = .error error ∧
        reward = ⟨quest, r.rewardType, r.formula, (QuestError.ofFormula error).message⟩) ∧
    result.2 = Factory.history (calls ++ q.rewards.filterMap fun r =>
      (registered? r.rewardType).map fun R => .evaluator ⟨S, R, r.formula⟩ S R) ∧
    (∀ quest r f, registered? r.rewardType = none →
      (compileReward registry quest f r).value.2 = f) ∧
    ∀ state, List.Forall₂ (fun reward granted => ∃ R expr parameter v,
        registered? reward.rewardType = some R ∧ parse reward.evaluator.formula = .ok expr ∧
        R.constructors = [parameter] ∧
        expr.valueOn? (Catalog.build S) reward.evaluator.formula state = some v ∧
        granted = ⟨R, parameter, parameter.ofFloat v⟩)
      result.1.rewards (result.1.grant state).value.value := by
  intro registry registered? entries result
  have hget (name : String) : registry.rewards.get? name = registered? name :=
    Registry.get?_ofList registrations name
  have hresult : result = (registry.template q, Factory.history (calls ++ registry.calls q)) := by
    rw [Factory.history_append]
    exact ofFile_value (Factory.sound_history calls) q registry
  have hok {quest : String} {r : RewardLine} {reward : TemplateReward S} :
      registry.entry quest r = .ok reward ↔ ∃ R e, registered? r.rewardType = some R ∧
        Descriptor.evaluator ⟨S, R, r.formula⟩ = .ok e ∧ reward = ⟨r.rewardType, e⟩ := by
    rw [Registry.entry_eq_ok_iff, hget]
  refine ⟨?_, fun quest r reward => hok, fun quest r reward h => ?_, fun quest r reward => ?_, ?_,
    fun quest r f h => ?_, fun state => ?_⟩
  · rw [hresult]
    refine ⟨rfl, rfl, rfl, rfl, ?_⟩
    exact (length_filterMap_toOption_add entries).trans (List.length_map _)
  · obtain ⟨R, e, -, he, rfl⟩ := hok.mp h
    exact ⟨rfl, (Descriptor.evaluator_eq_ok he).1⟩
  · rw [Registry.entry_eq_error_iff, hget]
    rfl
  · have hcall : registry.call? = fun r => (registered? r.rewardType).map fun R =>
        .evaluator ⟨S, R, r.formula⟩ S R := funext fun r => by rw [Registry.call?, hget]
    rw [hresult, Registry.calls, hcall]
  · rw [compileReward_of_unregistered ((hget _).trans h)]
  · rw [value_grant, List.forall₂_map_right_iff, List.forall₂_same]
    intro reward hreward
    rw [hresult] at hreward
    obtain ⟨entry, hentry, hsome⟩ := List.mem_filterMap.mp hreward
    obtain ⟨r, -, rfl⟩ := List.mem_map.mp hentry
    cases h : registry.entry q.name r with
    | error disabled =>
      rw [h] at hsome
      cases hsome
    | ok reward' =>
      rw [h] at hsome
      obtain rfl := Option.some.inj hsome
      obtain ⟨R, e, hR, he, rfl⟩ := hok.mp h
      obtain ⟨hformula, expr, parameter, hparse, hconstructors, hvalue⟩ :=
        Descriptor.evaluator_eq_ok he
      refine ⟨R, expr, parameter, e.evaluateRaw state, hR, ?_, hconstructors, ?_, (hvalue state).2⟩
      · exact hformula ▸ hparse
      · show expr.valueOn? (Catalog.build S) e.formula state = _
        rw [hformula]
        exact (hvalue state).1

/-- A reward that compiles between one whose type is not registered and one that names no member. -/
theorem Template.ofFile_isolates_unlock :
    let q : QuestFile := ⟨"hunt", "hunts", "", [⟨"Gold", "bonus", 3⟩, ⟨"UnlockReward", "bonus", 4⟩,
      ⟨"XpReward", "kills", 5⟩], none⟩
    let t := (ofFile q (Registry.builtin "" : Registry huntState) (Factory.history [])).value.1
    t.rewards.map (·.rewardType) = ["UnlockReward"] ∧
    t.disabled = [⟨"hunt", "Gold", "bonus", (QuestError.unknownReward "Gold").message⟩,
      ⟨"hunt", "XpReward", "kills",
        (QuestError.ofFormula (.unknownVariable "kills" "kills" "Hunt")).message⟩] := by
  rw [Registry.builtin_eq_ofList]
  intro q t
  obtain ⟨⟨-, -, hrewards, hdisabled, -⟩, hok, -, herror, -⟩ := ofFile_isolates huntState
    (BuiltinReward.all.map fun reward => (reward.kind, reward.type "")) [] q
  have hgold := (herror "hunt" ⟨"Gold", "bonus", 3⟩ _).mpr (.inl ⟨by decide +kernel, rfl⟩)
  have hxp := (herror "hunt" ⟨"XpReward", "kills", 5⟩ _).mpr
    (.inr ⟨BuiltinReward.experience.type "", .unknownVariable "kills" "kills" "Hunt",
      by decide +kernel, by cbv, rfl⟩)
  have hisOk : (Descriptor.evaluator ⟨huntState, BuiltinReward.unlock.type "", "bonus"⟩).isOk =
    true := by cbv
  cases he : Descriptor.evaluator ⟨huntState, BuiltinReward.unlock.type "", "bonus"⟩ with
  | error error =>
    rw [he] at hisOk
    cases hisOk
  | ok e =>
    have hunlock := (hok "hunt" ⟨"UnlockReward", "bonus", 4⟩ _).mpr
      ⟨BuiltinReward.unlock.type "", e, by decide +kernel, he, rfl⟩
    have hentries := congrArg₂ List.cons hgold
      (congrArg₂ List.cons hunlock (congrArg₂ List.cons hxp (Eq.refl [])))
    have ht : t.rewards = [⟨"UnlockReward", e⟩] :=
      hrewards.trans (congrArg (List.filterMap Except.toOption) hentries)
    exact ⟨by rw [ht]; rfl, hdisabled.trans (congrArg (List.filterMap failure?) hentries)⟩

end QuestFormula
