import QuestFormula.Proofs.Factory.History
import QuestFormula.Proofs.State.Lookup

/-! A factory is a transparent memo.  After any calls it holds one outcome for each descriptor that a
call needed compiled and one catalog for each state type that a call needed, and it compiled as often
as it holds outcomes.  What it answers is what the pipeline gives for the descriptor alone; asked
again, it answers with the same evaluator, and no other descriptor has that one. -/

namespace QuestFormula

namespace Factory

/-- The descriptors that calls need compiled. -/
def neededDescriptors (calls : List Call) : Finset Descriptor :=
  (calls.filterMap Call.descriptor?).toFinset

/-- The state types whose catalogs calls need. -/
def neededStates (calls : List Call) : Finset StateType :=
  (calls.filterMap Call.state?).toFinset

theorem length_compiled (f : Factory) : f.compiled.length = f.size := by
  rw [compiled, List.length_reverse, Memo.length_keys, size]

theorem size_history (calls : List Call) :
    (history calls).size = (neededDescriptors calls).card := by
  rw [← length_compiled, ← List.toFinset_card_of_nodup (sound_history calls).nodup_compiled]
  refine congrArg Finset.card (Finset.ext fun d => ?_)
  rw [neededDescriptors, List.mem_toFinset, List.mem_toFinset, mem_compiled_history]

theorem compilations_history (calls : List Call) :
    (history calls).compilations = (neededDescriptors calls).card := by
  rw [(sound_history calls).compilations, length_compiled, size_history]

theorem catalogs_size_history (calls : List Call) :
    (history calls).catalogs.size = (neededStates calls).card := by
  have hnodup := (sound_history calls).catalogs.nodup_keys
  rw [CatalogCache.size, ← Memo.length_keys, ← List.toFinset_card_of_nodup hnodup]
  refine congrArg Finset.card (Finset.ext fun S => ?_)
  rw [neededStates, List.mem_toFinset, List.mem_toFinset, mem_catalogs_history]

theorem catalog_history (calls : List Call) (S : StateType) :
    ((history calls).catalog S).value.1 = Catalog.build S :=
  (sound_history calls).catalogs.get_fst S

/-- A descriptor keeps its place among those compiled, and a request gives it one. -/
theorem idxOf_compiled_later (calls later : List Call) (d : Descriptor) :
    (history (calls ++ .evaluator d d.state d.reward :: later)).compiled.idxOf d =
      (history calls).compiled.idxOf d := by
  have hsound := sound_history calls
  have hprefix : ((history calls).keep d).value.2.compiled <+:
      (history (calls ++ .evaluator d d.state d.reward :: later)).compiled := by
    rw [history_append, List.foldl_cons, after_evaluator]
    exact (hsound.keep d).compiled_prefix_foldl_after later
  have hmem := (hsound.mem_compiled_keep d d).mpr (.inr rfl)
  rw [← hprefix.idxOf_eq_of_mem hmem]
  rcases (hsound.keep_cases d).2 with ⟨-, hf⟩ | ⟨hnew, hf⟩
  · rw [hf]
  · rw [hf, compiled_compileNext, List.idxOf_append_of_notMem hnew, List.idxOf_cons_self,
      Nat.add_zero, List.idxOf_of_notMem hnew]

/-- The outcomes for a descriptor stay the same from its first request on. -/
theorem getOrCompile_later (calls later : List Call) (d : Descriptor) :
    ((history (calls ++ .evaluator d d.state d.reward :: later)).getOrCompile d d.state
      d.reward).value.1 = ((history calls).getOrCompile d d.state d.reward).value.1 := by
  rw [(sound_history _).getOrCompile_fst, (sound_history calls).getOrCompile_fst,
    idxOf_compiled_later]

theorem serial_getOrCompile {calls : List Call} {d : Descriptor} {c : Compiled d.state}
    (h : ((history calls).getOrCompile d d.state d.reward).value.1 = .ok c) :
    c.serial = (history calls).compiled.idxOf d := by
  rw [(sound_history calls).getOrCompile_fst] at h
  cases he : d.evaluator with
  | error error =>
    rw [he] at h
    cases h
  | ok e =>
    rw [he] at h
    cases h
    rfl

/-- Two descriptors that were needed have no evaluator in common. -/
theorem eq_of_serial_eq {calls : List Call} {d d' : Descriptor} {c : Compiled d.state}
    {c' : Compiled d'.state} (hd : d ∈ neededDescriptors calls)
    (h : ((history calls).getOrCompile d d.state d.reward).value.1 = .ok c)
    (h' : ((history calls).getOrCompile d' d'.state d'.reward).value.1 = .ok c')
    (hserial : c.serial = c'.serial) : d = d' := by
  rw [serial_getOrCompile h, serial_getOrCompile h'] at hserial
  rw [neededDescriptors, List.mem_toFinset, ← mem_compiled_history] at hd
  exact (List.idxOf_inj hd).mp hserial

/-- What is kept is found again at the types that it is kept for. -/
theorem isSome_downcast?_of_find? {calls : List Call} {d : Descriptor}
    {erased : Erased fun types : TypePair => Compiled types.state}
    (h : (history calls).outcomes.find? d = some (.ok erased)) :
    (erased.downcast? ⟨d.state, d.reward⟩).isSome := by
  obtain ⟨e, -, hdowncast⟩ :=
    Descriptor.exists_downcast?_of_kept ((sound_history calls).eq_kept d _ h).symm
  rw [hdowncast]
  rfl

theorem isSome_downcast?_of_find?_catalog {calls : List Call} {S : StateType}
    {kept : Erased Catalog} (h : (history calls).catalogs.memo.find? S = some kept) :
    (kept.downcast? S).isSome := by
  obtain rfl := (sound_history calls).catalogs.eq_build S kept h
  rw [Erased.downcast?_mk]
  rfl

/-- After any calls a factory holds, and compiled, one outcome for each descriptor that they needed,
and holds one catalog for each state type that they needed.  A request for other types than those of
the descriptor is a mismatch and changes nothing.  A catalog is that of the state type.  The outcome
for a descriptor is that of the pipeline for it alone, and is the same at every later request; its
evaluator is no other descriptor's; and what is kept always has the type that is asked for. -/
theorem transparent_history (calls : List Call) :
    let f := history calls
    (f.size = (neededDescriptors calls).card ∧ f.compilations = (neededDescriptors calls).card ∧
      f.catalogs.size = (neededStates calls).card) ∧
    (∀ (d : Descriptor) (S : StateType) (R : RewardType), ¬(d.state = S ∧ d.reward = R) →
      (f.getOrCompile d S R).value = (.error (d.mismatch S R), f)) ∧
    (∀ S : StateType, (f.catalog S).value.1 = Catalog.build S) ∧
    (∀ d : Descriptor,
      (f.getOrCompile d d.state d.reward).value.1.map Compiled.evaluator = d.evaluator ∧
      ∀ later, ((history (calls ++ .evaluator d d.state d.reward :: later)).getOrCompile d d.state
        d.reward).value.1 = (f.getOrCompile d d.state d.reward).value.1) ∧
    (∀ d d' : Descriptor, d ∈ neededDescriptors calls → ∀ c c',
      (f.getOrCompile d d.state d.reward).value.1 = .ok c →
      (f.getOrCompile d' d'.state d'.reward).value.1 = .ok c' → c.serial = c'.serial → d = d') ∧
    (∀ d erased, f.outcomes.find? d = some (.ok erased) →
      (erased.downcast? ⟨d.state, d.reward⟩).isSome) ∧
    ∀ S kept, f.catalogs.memo.find? S = some kept → (kept.downcast? S).isSome := by
  intro f
  refine ⟨⟨size_history calls, compilations_history calls, catalogs_size_history calls⟩,
    fun d S R h => getOrCompile_of_ne h, catalog_history calls,
    fun d => ⟨map_evaluator_getOrCompile_history calls d, fun later => ?_⟩,
    fun d d' hd c c' h h' hserial => eq_of_serial_eq hd h h' hserial,
    fun d erased h => isSome_downcast?_of_find? h,
    fun S kept h => isSome_downcast?_of_find?_catalog h⟩
  exact getOrCompile_later calls later d

/-- Two spellings of one formula, of which one is asked for twice: each has an evaluator, that of the
one is not that of the other, and it is the same when it is asked for again.  A formula that does not
compile, which fails again for the same reason; a mismatch, which counts for nothing; and a catalog
apart from them. -/
theorem transparent_history_spellings :
    let title : RewardType := ⟨"Title", "Title", [.text], .literal⟩
    let bonus : Descriptor := ⟨huntState, title, "bonus"⟩
    let spaced : Descriptor := ⟨huntState, title, " bonus"⟩
    let score : Descriptor := ⟨huntState, title, "score"⟩
    let empty : StateType := ⟨"Empty", .nil⟩
    let ask (d : Descriptor) : Call := .evaluator d d.state d.reward
    let calls : List Call := [ask bonus, ask spaced, ask bonus, ask score,
      .evaluator bonus ⟨"Other", .nil⟩ title, .catalog empty]
    let outcome (calls : List Call) (d : Descriptor) : Outcome d.state :=
      ((history calls).getOrCompile d d.state d.reward).value.1
    (history calls).compilations = 3 ∧ (history calls).catalogs.size = 2 ∧
    (∃ c c' : Compiled huntState, outcome calls bonus = .ok c ∧ outcome calls spaced = .ok c' ∧
      c.serial ≠ c'.serial ∧ outcome (calls ++ [ask bonus]) bonus = .ok c) ∧
    outcome calls score = .error (.nonNumericVariable "score" "score" "()") ∧
    outcome (calls ++ [ask score]) score = .error (.nonNumericVariable "score" "score" "()") ∧
    ((history calls).getOrCompile bonus empty title).value.1 =
      .error (.descriptorMismatch "`bonus` (Hunt -> Title)" "Empty -> Title") := by
  intro title bonus spaced score empty ask calls outcome
  obtain ⟨⟨-, hcompilations, hcatalogs⟩, hmismatch, -, houtcome, hserial, -⟩ :=
    transparent_history calls
  have hok {d : Descriptor} (h : d.evaluator.isOk = true) : ∃ c, outcome calls d = .ok c := by
    refine (exists_getOrCompile_history_eq_ok_iff calls d).mpr ?_
    cases hd : d.evaluator with
    | ok e => exact ⟨e, rfl⟩
    | error error =>
      rw [hd] at h
      cases h
  obtain ⟨c, hc⟩ := hok (d := bonus) (by cbv)
  obtain ⟨c', hc'⟩ := hok (d := spaced) (by cbv)
  have hscore : outcome calls score = .error (.nonNumericVariable "score" "score" "()") :=
    (getOrCompile_history_eq_error_iff calls score).mpr (by cbv)
  have hlater (d : Descriptor) : outcome (calls ++ [ask d]) d = outcome calls d := (houtcome d).2 []
  refine ⟨hcompilations.trans (by decide), hcatalogs.trans (by decide),
    ⟨c, c', hc, hc', fun heq => ?_, (hlater bonus).trans hc⟩, hscore,
    (hlater score).trans hscore, ?_⟩
  · exact absurd (hserial bonus spaced (by decide) c c' hc hc' heq) (by decide)
  · rw [hmismatch bonus empty title (by decide)]
    rfl

end Factory

end QuestFormula
