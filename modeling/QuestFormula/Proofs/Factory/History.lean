import Mathlib
import QuestFormula.Factory.Basic

/-! A factory in use.  Whatever was asked of it before and in whatever order, it keeps what
building and compiling would give again: `Sound` holds of the empty factory, and every call
preserves it.  So the outcome for a formula is that of compiling the formula alone, but for the
number that an evaluator has among the compilations, and that number is the place of its descriptor
among those compiled. -/

namespace QuestFormula

/-- What the formula compiles to. -/
def Descriptor.evaluator (d : Descriptor) : Except FormulaError (Evaluator d.state) :=
  (Factory.compileWith (Catalog.build d.state) d.reward d.formula).map Prod.fst

/-- What is kept for a descriptor that is compiled after `serial` others. -/
def Descriptor.kept (d : Descriptor) (serial : Nat) : Kept :=
  (Factory.compile (Catalog.build d.state) d.reward d.formula serial).value

/-- The types of what is kept are those of the descriptor. -/
theorem Descriptor.exists_downcast?_of_kept {d : Descriptor} {serial : Nat}
    {erased : Erased fun types : TypePair => Compiled types.state}
    (h : d.kept serial = .ok erased) :
    ∃ e, d.evaluator = .ok e ∧ erased.downcast? ⟨d.state, d.reward⟩ = some ⟨serial, e⟩ := by
  rw [kept, Factory.compile] at h
  rw [evaluator]
  cases hc : Factory.compileWith (Catalog.build d.state) d.reward d.formula with
  | error error =>
    rw [hc] at h
    cases h
  | ok result =>
    rw [hc] at h
    cases h
    exact ⟨result.1, rfl, Erased.downcast?_mk _ _⟩

theorem Descriptor.kept_eq_error {d : Descriptor} {serial : Nat} {error : FormulaError}
    (h : d.kept serial = .error error) : d.evaluator = .error error := by
  rw [kept, Factory.compile] at h
  rw [evaluator]
  cases hc : Factory.compileWith (Catalog.build d.state) d.reward d.formula with
  | error error' =>
    rw [hc] at h
    cases h
    rfl
  | ok result =>
    rw [hc] at h
    cases h

theorem Descriptor.outcome_kept (d : Descriptor) (serial : Nat) :
    (d.kept serial).outcome d = d.evaluator.map (Compiled.mk serial) := by
  cases h : d.kept serial with
  | error error =>
    rw [kept_eq_error h]
    rfl
  | ok erased =>
    obtain ⟨e, he, hdowncast⟩ := exists_downcast?_of_kept h
    rw [he, Kept.outcome, hdowncast]
    rfl

/-! ### Catalogs -/

namespace CatalogCache

/-- What is kept for a state type is its catalog, and is kept once. -/
structure Sound (cache : CatalogCache) : Prop where
  nodup_keys : cache.memo.keys.Nodup
  eq_build : ∀ S kept, cache.memo.find? S = some kept → kept = ⟨S, Catalog.build S⟩

theorem sound_empty : Sound empty where
  nodup_keys := List.nodup_nil
  eq_build S kept h := by simp [empty] at h

namespace Sound

variable {cache : CatalogCache}

theorem get_cases (h : cache.Sound) (S : StateType) :
    (S ∈ cache.memo.keys ∧ (cache.get S).value = (Catalog.build S, cache)) ∨
    S ∉ cache.memo.keys ∧ (cache.get S).value =
      (Catalog.build S, ⟨cache.memo.add S ⟨S, Catalog.build S⟩⟩) := by
  rw [get]
  cases hfind : cache.memo.find? S with
  | some kept =>
    obtain rfl := h.eq_build S kept hfind
    refine .inl ⟨?_, by simp⟩
    by_contra hnone
    rw [Memo.find?_eq_none_iff.mpr hnone] at hfind
    cases hfind
  | none => exact .inr ⟨Memo.find?_eq_none_iff.mp hfind, by simp [build]⟩

theorem get_fst (h : cache.Sound) (S : StateType) :
    (cache.get S).value.1 = Catalog.build S := by
  rcases h.get_cases S with ⟨-, hget⟩ | ⟨-, hget⟩
  · rw [hget]
  · rw [hget]

theorem get (h : cache.Sound) (S : StateType) : (cache.get S).value.2.Sound := by
  rcases h.get_cases S with ⟨-, hget⟩ | ⟨hnew, hget⟩
  · rw [hget]
    exact h
  · rw [hget]
    refine ⟨List.nodup_cons.mpr ⟨hnew, h.nodup_keys⟩, fun S' kept hfind => ?_⟩
    by_cases hS : S = S'
    · subst hS
      rw [Memo.find?_add_self] at hfind
      exact (Option.some.inj hfind).symm
    · rw [Memo.find?_add_of_ne _ _ hS] at hfind
      exact h.eq_build S' kept hfind

theorem mem_keys_get (h : cache.Sound) (S S' : StateType) :
    S' ∈ (cache.get S).value.2.memo.keys ↔ S' ∈ cache.memo.keys ∨ S' = S := by
  rcases h.get_cases S with ⟨hold, hget⟩ | ⟨-, hget⟩
  · rw [hget]
    exact ⟨.inl, fun h => h.elim id fun hS => hS ▸ hold⟩
  · rw [hget, Memo.keys_add, List.mem_cons, or_comm]

end Sound

end CatalogCache

namespace Factory

/-- What a factory can be asked for. -/
inductive Call where
  | evaluator (d : Descriptor) (S : StateType) (R : RewardType)
  | catalog (S : StateType)

/-- The factory after a call. -/
def after (f : Factory) : Call → Factory
  | .evaluator d S R => (f.getOrCompile d S R).value.2
  | .catalog S => (f.catalog S).value.2

/-- The factory after calls of an empty one. -/
def history (calls : List Call) : Factory := calls.foldl after empty

theorem history_append (calls later : List Call) :
    history (calls ++ later) = later.foldl after (history calls) := List.foldl_append

theorem history_concat (calls : List Call) (call : Call) :
    history (calls ++ [call]) = (history calls).after call := by
  rw [history_append]
  rfl

/-- The descriptors that the factory compiled, in order. -/
def compiled (f : Factory) : List Descriptor := f.outcomes.keys.reverse

/-! ### One call -/

/-- What the factory keeps is what building and compiling would give again, each once, and there
is a catalog for every descriptor that it compiled. -/
structure Sound (f : Factory) : Prop where
  catalogs : f.catalogs.Sound
  state_mem : ∀ d ∈ f.compiled, d.state ∈ f.catalogs.memo.keys
  nodup_compiled : f.compiled.Nodup
  compilations : f.compilations = f.compiled.length
  eq_kept : ∀ d kept, f.outcomes.find? d = some kept → kept = d.kept (f.compiled.idxOf d)

theorem sound_empty : Sound empty where
  catalogs := CatalogCache.sound_empty
  state_mem d h := by simp [compiled, empty] at h
  nodup_compiled := List.nodup_nil
  compilations := rfl
  eq_kept d kept h := by simp [empty] at h

theorem find?_eq_none_iff {f : Factory} {d : Descriptor} :
    f.outcomes.find? d = none ↔ d ∉ f.compiled := by
  rw [Memo.find?_eq_none_iff, compiled, List.mem_reverse]

theorem getOrCompile_of_eq (f : Factory) (d : Descriptor) :
    f.getOrCompile d d.state d.reward = f.request d.state d.reward d.formula :=
  if_pos ⟨rfl, rfl⟩

theorem getOrCompile_of_ne {f : Factory} {d : Descriptor} {S : StateType} {R : RewardType}
    (h : ¬(d.state = S ∧ d.reward = R)) :
    (f.getOrCompile d S R).value = (.error (d.mismatch S R), f) :=
  congrArg Logged.value (if_neg h)

/-- The factory after a descriptor that it did not compile before. -/
def compileNext (f : Factory) (d : Descriptor) : Factory where
  catalogs := (f.catalogs.get d.state).value.2
  outcomes := f.outcomes.add d (d.kept f.compilations)
  compilations := f.compilations + 1

theorem compiled_compileNext (f : Factory) (d : Descriptor) :
    (f.compileNext d).compiled = f.compiled ++ [d] := by
  simp [compiled, compileNext]

namespace Sound

variable {f : Factory}

/-- A request compiles its descriptor unless that was compiled before, and its outcome is that of
the descriptor alone, with the place of the descriptor among those compiled. -/
theorem keep_cases (h : f.Sound) (d : Descriptor) :
    (f.keep d).value.1 = d.kept (f.compiled.idxOf d) ∧
      (d ∈ f.compiled ∧ (f.keep d).value.2 = f ∨
        d ∉ f.compiled ∧ (f.keep d).value.2 = f.compileNext d) := by
  rw [keep]
  cases hfind : f.outcomes.find? d with
  | some kept =>
    refine ⟨h.eq_kept d kept hfind, .inl ⟨?_, rfl⟩⟩
    by_contra hnew
    rw [find?_eq_none_iff.mpr hnew] at hfind
    cases hfind
  | none =>
    have hnew := find?_eq_none_iff.mp hfind
    have hcompile : (compile (f.catalogs.get d.state).value.1 d.reward d.formula
        f.compilations).value = d.kept f.compilations := by
      rw [h.catalogs.get_fst]
      rfl
    refine ⟨?_, .inr ⟨hnew, ?_⟩⟩
    · rw [List.idxOf_of_notMem hnew, ← h.compilations]
      exact hcompile
    · rw [compileNext, ← hcompile]
      rfl

theorem compileNext (h : f.Sound) {d : Descriptor} (hnew : d ∉ f.compiled) :
    (f.compileNext d).Sound := by
  refine ⟨h.catalogs.get d.state, fun d' hd' => ?_, ?_, ?_, fun d' kept hfind => ?_⟩
  · rw [compiled_compileNext, List.mem_append, List.mem_singleton] at hd'
    exact (h.catalogs.mem_keys_get d.state d'.state).mpr
      (hd'.imp (h.state_mem d') (congrArg Descriptor.state))
  · rw [compiled_compileNext, ← List.concat_eq_append]
    exact List.Nodup.concat hnew h.nodup_compiled
  · rw [compiled_compileNext, List.length_append, ← h.compilations]
    rfl
  · rw [compiled_compileNext]
    by_cases hd : d = d'
    · subst hd
      rw [Factory.compileNext, Memo.find?_add_self] at hfind
      rw [List.idxOf_append_of_notMem hnew, List.idxOf_cons_self, Nat.add_zero, ← h.compilations]
      exact (Option.some.inj hfind).symm
    · rw [Factory.compileNext, Memo.find?_add_of_ne _ _ hd] at hfind
      have hold : d' ∈ f.compiled := by
        by_contra hnone
        rw [find?_eq_none_iff.mpr hnone] at hfind
        cases hfind
      rw [List.idxOf_append_of_mem hold]
      exact h.eq_kept d' kept hfind

theorem keep (h : f.Sound) (d : Descriptor) : (f.keep d).value.2.Sound := by
  rcases (h.keep_cases d).2 with ⟨-, hf⟩ | ⟨hnew, hf⟩
  · rw [hf]
    exact h
  · rw [hf]
    exact h.compileNext hnew

theorem mem_compiled_keep (h : f.Sound) (d d' : Descriptor) :
    d' ∈ (f.keep d).value.2.compiled ↔ d' ∈ f.compiled ∨ d' = d := by
  rcases (h.keep_cases d).2 with ⟨hold, hf⟩ | ⟨-, hf⟩
  · rw [hf]
    exact ⟨.inl, fun h => h.elim id fun hd => hd ▸ hold⟩
  · rw [hf, compiled_compileNext, List.mem_append, List.mem_singleton]

theorem mem_catalogs_keep (h : f.Sound) (d : Descriptor) (S : StateType) :
    S ∈ (f.keep d).value.2.catalogs.memo.keys ↔ S ∈ f.catalogs.memo.keys ∨ S = d.state := by
  rcases (h.keep_cases d).2 with ⟨hold, hf⟩ | ⟨-, hf⟩
  · rw [hf]
    exact ⟨.inl, fun hS => hS.elim id fun hS => hS ▸ h.state_mem d hold⟩
  · rw [hf]
    exact h.catalogs.mem_keys_get d.state S

theorem compiled_prefix_keep (h : f.Sound) (d : Descriptor) :
    f.compiled <+: (f.keep d).value.2.compiled := by
  rcases (h.keep_cases d).2 with ⟨-, hf⟩ | ⟨-, hf⟩
  · rw [hf]
  · rw [hf, compiled_compileNext]
    exact List.prefix_append _ _

theorem getOrCompile_fst (h : f.Sound) (d : Descriptor) :
    (f.getOrCompile d d.state d.reward).value.1 =
      d.evaluator.map (Compiled.mk (f.compiled.idxOf d)) := by
  rw [getOrCompile_of_eq, ← Descriptor.outcome_kept, ← (h.keep_cases d).1]
  rfl

end Sound

/-! ### All calls -/

/-- The descriptor that a call needs compiled: its own, if it is about the types asked for. -/
def Call.descriptor? : Call → Option Descriptor
  | .evaluator d S R => if d.state = S ∧ d.reward = R then some d else none
  | .catalog _ => none

/-- The state type whose catalog a call needs. -/
def Call.state? : Call → Option StateType
  | .evaluator d S R => (descriptor? (.evaluator d S R)).map Descriptor.state
  | .catalog S => some S

theorem after_evaluator (f : Factory) (d : Descriptor) :
    f.after (.evaluator d d.state d.reward) = (f.keep d).value.2 :=
  congrArg (·.value.2) (f.getOrCompile_of_eq d)

/-- A call needs a descriptor compiled, or a catalog alone, or nothing. -/
theorem after_cases (f : Factory) (call : Call) :
    (∃ d, call.descriptor? = some d ∧ call.state? = some d.state ∧
      f.after call = (f.keep d).value.2) ∨
    call.descriptor? = none ∧
      ((∃ S, call.state? = some S ∧
        f.after call = { f with catalogs := (f.catalogs.get S).value.2 }) ∨
      call.state? = none ∧ f.after call = f) := by
  cases call with
  | catalog S => exact .inr ⟨rfl, .inl ⟨S, rfl, rfl⟩⟩
  | evaluator d S R =>
    by_cases h : d.state = S ∧ d.reward = R
    · obtain ⟨rfl, rfl⟩ := h
      have hd : (Call.evaluator d d.state d.reward).descriptor? = some d := if_pos ⟨rfl, rfl⟩
      exact .inl ⟨d, hd, congrArg (Option.map Descriptor.state) hd, f.after_evaluator d⟩
    · have hd : (Call.evaluator d S R).descriptor? = none := if_neg h
      exact .inr ⟨hd, .inr ⟨congrArg (Option.map Descriptor.state) hd,
        congrArg Prod.snd (getOrCompile_of_ne h)⟩⟩

namespace Sound

variable {f : Factory}

theorem after (h : f.Sound) (call : Call) : (f.after call).Sound := by
  rcases f.after_cases call with ⟨d, -, -, hf⟩ | ⟨-, ⟨S, -, hf⟩ | ⟨-, hf⟩⟩
  · rw [hf]
    exact h.keep d
  · rw [hf]
    exact ⟨h.catalogs.get S, fun d hd => (h.catalogs.mem_keys_get S _).mpr (.inl (h.state_mem d hd)),
      h.nodup_compiled, h.compilations, h.eq_kept⟩
  · rw [hf]
    exact h

theorem mem_compiled_after (h : f.Sound) (call : Call) (d : Descriptor) :
    d ∈ (f.after call).compiled ↔ d ∈ f.compiled ∨ call.descriptor? = some d := by
  rcases f.after_cases call with ⟨d', hd, -, hf⟩ | ⟨hd, ⟨S, -, hf⟩ | ⟨-, hf⟩⟩
  · rw [hf, h.mem_compiled_keep, hd, Option.some.injEq, eq_comm]
  · rw [hf, hd]
    simp [compiled]
  · rw [hf, hd]
    simp

theorem mem_catalogs_after (h : f.Sound) (call : Call) (S : StateType) :
    S ∈ (f.after call).catalogs.memo.keys ↔
      S ∈ f.catalogs.memo.keys ∨ call.state? = some S := by
  rcases f.after_cases call with ⟨d, -, hS, hf⟩ | ⟨-, ⟨S', hS, hf⟩ | ⟨hS, hf⟩⟩
  · rw [hf, h.mem_catalogs_keep, hS, Option.some.injEq, eq_comm]
  · rw [hf, h.catalogs.mem_keys_get, hS, Option.some.injEq, eq_comm]
  · rw [hf, hS]
    simp

theorem compiled_prefix_after (h : f.Sound) (call : Call) :
    f.compiled <+: (f.after call).compiled := by
  rcases f.after_cases call with ⟨d, -, -, hf⟩ | ⟨-, ⟨S, -, hf⟩ | ⟨-, hf⟩⟩
  · rw [hf]
    exact h.compiled_prefix_keep d
  · rw [hf]
    exact List.prefix_rfl
  · rw [hf]

theorem foldl_after (h : f.Sound) (calls : List Call) : (calls.foldl Factory.after f).Sound := by
  induction calls generalizing f with
  | nil => exact h
  | cons call calls ih => exact ih (h.after call)

theorem mem_compiled_foldl_after (h : f.Sound) (calls : List Call) (d : Descriptor) :
    d ∈ (calls.foldl Factory.after f).compiled ↔
      d ∈ f.compiled ∨ d ∈ calls.filterMap Call.descriptor? := by
  induction calls generalizing f with
  | nil => simp
  | cons call calls ih =>
    rw [List.foldl_cons, ih (h.after call), h.mem_compiled_after, or_assoc]
    simp [List.mem_filterMap]

theorem compiled_prefix_foldl_after (h : f.Sound) (calls : List Call) :
    f.compiled <+: (calls.foldl Factory.after f).compiled := by
  induction calls generalizing f with
  | nil => exact List.prefix_rfl
  | cons call calls ih => exact (h.compiled_prefix_after call).trans (ih (h.after call))

end Sound

theorem sound_history (calls : List Call) : (history calls).Sound := sound_empty.foldl_after calls

theorem mem_compiled_history (calls : List Call) (d : Descriptor) :
    d ∈ (history calls).compiled ↔ d ∈ calls.filterMap Call.descriptor? := by
  rw [history, sound_empty.mem_compiled_foldl_after]
  simp [compiled, empty]

theorem mem_catalogs_history (calls : List Call) (S : StateType) :
    S ∈ (history calls).catalogs.memo.keys ↔ S ∈ calls.filterMap Call.state? := by
  induction calls using List.reverseRecOn with
  | nil => simp [history, empty, CatalogCache.empty]
  | append_singleton calls call ih =>
    rw [history_concat, (sound_history calls).mem_catalogs_after, ih, List.filterMap_append,
      List.mem_append]
    simp

/-- A request for a descriptor gives what its formula compiles to, whatever was asked before. -/
theorem map_evaluator_getOrCompile_history (calls : List Call) (d : Descriptor) :
    ((history calls).getOrCompile d d.state d.reward).value.1.map Compiled.evaluator =
      d.evaluator := by
  rw [(sound_history calls).getOrCompile_fst]
  cases d.evaluator <;> rfl

theorem getOrCompile_history_eq_error_iff (calls : List Call) (d : Descriptor)
    {error : FormulaError} :
    ((history calls).getOrCompile d d.state d.reward).value.1 = .error error ↔
      d.evaluator = .error error := by
  rw [← map_evaluator_getOrCompile_history calls d]
  cases ((history calls).getOrCompile d d.state d.reward).value.1 <;> simp [Except.map]

theorem exists_getOrCompile_history_eq_ok_iff (calls : List Call) (d : Descriptor) :
    (∃ compiled, ((history calls).getOrCompile d d.state d.reward).value.1 = .ok compiled) ↔
      ∃ made, d.evaluator = .ok made := by
  rw [← map_evaluator_getOrCompile_history calls d]
  cases ((history calls).getOrCompile d d.state d.reward).value.1 <;> simp [Except.map]

end Factory

end QuestFormula
