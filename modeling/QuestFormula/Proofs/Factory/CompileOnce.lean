import QuestFormula.Proofs.Factory.Interleaving

/-! What a factory guarantees to requests that interleave.  However they do, no key is compiled
twice, and whoever has returned holds what the same requests give one after the other, in an order
that starts with those whose compilations were counted first.  Somebody can always go on until all
have returned, and then every key is compiled. -/

namespace QuestFormula

namespace Factory

namespace System

variable {s : System} {r : Request}

theorem map_request_step (s : System) (number : Nat) :
    (s.step number).callers.map Caller.request = s.callers.map Caller.request := by
  rw [System.step]
  cases hc : s.callers[number]? with
  | none => rfl
  | some c =>
    cases hnext : c.next? number s.shared with
    | none => simp [hnext]
    | some move => simpa [hnext] using map_request_set s hc move.1

theorem map_request_run (requests : List Request) (schedule : List Nat) :
    (run requests schedule).callers.map Caller.request = requests := by
  induction schedule using List.reverseRecOn with
  | nil => simp [run, start, Function.comp_def]
  | append_singleton schedule number ih =>
    rw [run, List.foldl_append]
    exact (map_request_step _ number).trans ih

namespace Sound

theorem compilations_le (h : s.Sound) : s.shared.compilations ≤ s.shared.keys.length := by
  rw [h.shared.compilations]
  exact (h.shared.nodup_begun.subperm h.shared.begun_subset).length_le

/-- When all have returned, every cell is full. -/
theorem keys_subset_begun (h : s.Sound)
    (hreturned : ∀ c ∈ s.callers, c.place.isReturned) :
    s.shared.keys ⊆ s.shared.begun := by
  intro d hd
  obtain ⟨⟨d, content⟩, hmem, rfl⟩ := List.mem_map.mp hd
  obtain ⟨cell, hcell⟩ := List.mem_iff_getElem?.mp hmem
  have hsound := h.cells cell d content hcell
  cases content with
  | vacant =>
    obtain ⟨-, number, c, hc, hp⟩ := hsound
    rw [Place.cell?_of_isReturned (hreturned c (List.mem_of_getElem? hc))] at hp
    cases hp
  | busy number =>
    obtain ⟨c, hc, hp⟩ := hsound
    have hcell := Place.cell?_of_initializes? hp
    rw [Place.cell?_of_isReturned (hreturned c (List.mem_of_getElem? hc))] at hcell
    cases hcell
  | full kept => exact hsound.1

theorem compilations_eq (h : s.Sound)
    (hreturned : ∀ c ∈ s.callers, c.place.isReturned) :
    s.shared.compilations = s.shared.keys.length := by
  refine h.compilations_le.antisymm ?_
  rw [h.shared.compilations]
  exact (h.shared.nodup_keys.subperm (h.keys_subset_begun hreturned)).length_le

/-- Somebody can always go on until all have returned. -/
theorem exists_next? (h : s.Sound) {c : Caller} (hc : c ∈ s.callers)
    (hreturned : ¬c.place.isReturned) :
    ∃ (number : Nat) (c' : Caller), s.callers[number]? = some c' ∧
      (c'.next? number s.shared).isSome := by
  obtain ⟨number, hc⟩ := List.mem_iff_getElem?.mp hc
  have hcaller := h.callers number c hc
  obtain ⟨r, p⟩ := c
  cases p with
  | entering =>
    refine ⟨number, _, hc, ?_⟩
    simp only [Caller.next?]
    split <;> rfl
  | holding cell =>
    obtain ⟨-, content, hcell⟩ := hcaller
    cases content with
    | vacant => exact ⟨number, _, hc, by simp [Caller.next?, hcell]⟩
    | full kept => exact ⟨number, _, hc, by simp [Caller.next?, hcell]⟩
    | busy other =>
      -- The caller waits for another one, who is past the reading of the cell.
      obtain ⟨⟨r', p'⟩, hc', hp'⟩ := h.cells cell _ _ hcell
      refine ⟨other, _, hc', ?_⟩
      cases p' <;> first | rfl | cases hp'
  | checked | initializing | counted | catalogued => exact ⟨number, _, hc, rfl⟩
  | returned outcome => exact absurd rfl hreturned

end Sound

end System

/-! ### The same requests one after the other -/

/-- The request as a call that no other interrupts. -/
def Request.call (r : Request) : Call := .evaluator r.descriptor r.state r.reward

def Request.answer (r : Request) (f : Factory) : Outcome r.state :=
  (f.getOrCompile r.descriptor r.state r.reward).value.1

theorem Request.Matches.answer_eq {r : Request} (h : r.Matches) {f : Factory} (hf : f.Sound) :
    r.answer f = (r.key.kept (f.compiled.idxOf r.key)).outcome r.key := by
  obtain ⟨d, S, R⟩ := r
  obtain ⟨rfl, rfl⟩ : d.state = S ∧ d.reward = R := h
  exact (hf.getOrCompile_fst d).trans (d.outcome_kept _).symm

theorem Request.answer_of_not_matches (r : Request) (h : ¬r.Matches) (f : Factory) :
    r.answer f = .error (r.descriptor.mismatch r.state r.reward) :=
  congrArg Prod.fst (getOrCompile_of_ne h)

/-- But for the number of an evaluator, an answer does not depend on the factory. -/
theorem Request.map_evaluator_answer (r : Request) (calls : List Call) :
    (r.answer (history calls)).map Compiled.evaluator =
      (r.answer empty).map Compiled.evaluator := by
  by_cases h : r.Matches
  · rw [h.answer_eq (sound_history calls), h.answer_eq sound_empty, Descriptor.outcome_kept,
      Descriptor.outcome_kept]
    cases r.key.evaluator <;> rfl
  · rw [r.answer_of_not_matches h, r.answer_of_not_matches h]

/-- Distinct keys are compiled in the order in which they are asked for. -/
theorem compiled_history_ofKey {ds : List Descriptor} (h : ds.Nodup) :
    (history (ds.map fun d => (Request.ofKey d).call)).compiled = ds := by
  induction ds using List.reverseRecOn with
  | nil => rfl
  | append_singleton ds d ih =>
    rw [← List.concat_eq_append, List.nodup_concat] at h
    obtain ⟨hd, hds⟩ := h
    have hsound := sound_history (ds.map fun d => (Request.ofKey d).call)
    rw [List.map_append, List.map_singleton, history_concat]
    have hcall (f : Factory) : f.after (Request.ofKey d).call = (f.keep d).value.2 :=
      f.after_evaluator d
    rw [hcall]
    rcases (hsound.keep_cases d).2 with ⟨hold, -⟩ | ⟨-, hf⟩
    · rw [ih hds] at hold
      exact absurd hold hd
    · rw [hf, compiled_compileNext, ih hds]

namespace System

variable {s : System} {r : Request}

/-- What a caller has returned is the answer of any factory that compiled the same keys first. -/
theorem Sound.outcome_eq (h : s.Sound) {f : Factory} (hf : f.Sound)
    (hbegun : s.shared.begun <+: f.compiled) {outcome : Outcome r.state}
    (hc : ⟨r, .returned outcome⟩ ∈ s.callers) : outcome = r.answer f := by
  obtain ⟨number, hc⟩ := List.mem_iff_getElem?.mp hc
  rcases h.callers number _ hc with ⟨hmatches, kept, ⟨hmem, hkept⟩, houtcome⟩ | ⟨hmatches, houtcome⟩
  · rw [Request.Matches.answer_eq hmatches hf, ← hbegun.idxOf_eq_of_mem hmem, ← hkept]
    exact houtcome
  · exact houtcome.trans (r.answer_of_not_matches hmatches f).symm

/-- The requests in an order that starts with the first of each key that has begun. -/
theorem Sound.exists_perm (h : s.Sound) :
    ∃ later, (s.shared.begun.map .ofKey ++ later).Perm (s.callers.map Caller.request) := by
  have hinjective : Function.Injective Request.ofKey := fun d d' hd =>
    congrArg Request.descriptor hd
  refine ⟨_, List.subperm_append_diff_self_of_count_le fun r _ => ?_⟩
  refine ((h.shared.nodup_begun.map hinjective).subperm fun r hr => ?_).count_le r
  obtain ⟨d, hd, rfl⟩ := List.mem_map.mp hr
  exact h.requested d (h.shared.begun_subset hd)

/-- One after the other in some order, the same requests give every caller what it has returned. -/
theorem Sound.exists_order (h : s.Sound) :
    ∃ order : List Request, order.Perm (s.callers.map Caller.request) ∧
      ∀ r outcome, ⟨r, .returned outcome⟩ ∈ s.callers →
        outcome = r.answer (history (order.map Request.call)) := by
  obtain ⟨later, hperm⟩ := h.exists_perm
  refine ⟨_, hperm, fun r outcome hc => h.outcome_eq (sound_history _) ?_ hc⟩
  have hfirst := sound_history (s.shared.begun.map fun d => (Request.ofKey d).call)
  rw [List.map_append, List.map_map, history_append]
  have hprefix := hfirst.compiled_prefix_foldl_after (later.map Request.call)
  rwa [compiled_history_ofKey h.shared.nodup_begun] at hprefix

/-- Callers that have returned for one key hold the same outcome. -/
theorem Sound.outcome_heq {r' : Request} (h : s.Sound) {outcome : Outcome r.state}
    {outcome' : Outcome r'.state} (hc : ⟨r, .returned outcome⟩ ∈ s.callers)
    (hc' : ⟨r', .returned outcome'⟩ ∈ s.callers) (hmatches : r.Matches) (hmatches' : r'.Matches)
    (hkey : r.key = r'.key) : HEq outcome outcome' := by
  obtain rfl : r = r' := by rw [hmatches.eq_ofKey, hmatches'.eq_ofKey, hkey]
  obtain ⟨order, -, horder⟩ := h.exists_order
  exact heq_of_eq ((horder r outcome hc).trans (horder r outcome' hc').symm)

theorem Sound.map_evaluator_eq (h : s.Sound) {outcome : Outcome r.state}
    (hc : ⟨r, .returned outcome⟩ ∈ s.callers) (calls : List Call) :
    outcome.map Compiled.evaluator = (r.answer (history calls)).map Compiled.evaluator := by
  obtain ⟨order, -, horder⟩ := h.exists_order
  rw [horder r outcome hc, r.map_evaluator_answer, r.map_evaluator_answer]

end System

/-- However the steps of any requests interleave: every key has one cell and is compiled at most
once, so that there are no more compilations than keys; callers of one key return one outcome; the
requests one after the other, in some order, give every caller what it has returned, and in any
history give it the same but for the number of its evaluator; and when all have returned there are
as many compilations as keys. -/
theorem run_compiles_once (requests : List Request) (schedule : List Nat) :
    let s := System.run requests schedule
    s.callers.map Caller.request = requests ∧
    (s.shared.keys.Nodup ∧ s.shared.begun.Nodup ∧ s.shared.begun ⊆ s.shared.keys ∧
      s.shared.compilations = s.shared.begun.length ∧
      s.shared.compilations ≤ s.shared.keys.length) ∧
    (∀ r r' outcome outcome', ⟨r, .returned outcome⟩ ∈ s.callers →
      ⟨r', .returned outcome'⟩ ∈ s.callers → r.Matches → r'.Matches → r.key = r'.key →
      HEq outcome outcome') ∧
    (∃ order : List Request, order.Perm requests ∧ ∀ r outcome,
      ⟨r, .returned outcome⟩ ∈ s.callers →
      outcome = r.answer (history (order.map Request.call))) ∧
    (∀ calls r outcome, ⟨r, .returned outcome⟩ ∈ s.callers →
      outcome.map Compiled.evaluator = (r.answer (history calls)).map Compiled.evaluator) ∧
    ((∀ c ∈ s.callers, c.place.isReturned) →
      s.shared.compilations = s.shared.keys.length) := by
  intro s
  have h : s.Sound := System.sound_run requests schedule
  have hrequests := System.map_request_run requests schedule
  refine ⟨hrequests, ⟨h.shared.nodup_keys, h.shared.nodup_begun, h.shared.begun_subset,
    h.shared.compilations, h.compilations_le⟩,
    fun r r' outcome outcome' hc hc' hm hm' hkey => h.outcome_heq hc hc' hm hm' hkey,
    hrequests ▸ h.exists_order, fun calls r outcome hc => h.map_evaluator_eq hc calls,
    h.compilations_eq⟩

/-- Two requests for one key, of which the second waits for the first, and one for other types. -/
theorem run_compiles_once_waiting :
    let title : RewardType := ⟨"Title", "Title", [.text], .literal⟩
    let bonus : Descriptor := ⟨huntState, title, "bonus"⟩
    let requests : List Request := [.ofKey bonus, .ofKey bonus, ⟨bonus, ⟨"Other", .nil⟩, title⟩]
    let schedule := [0, 1, 0, 1, 0, 1, 2, 0, 1, 0, 0, 0, 1]
    (System.run requests schedule).shared.compilations = 1 := by
  intro title bonus requests schedule
  obtain ⟨-, -, -, -, -, hall⟩ := run_compiles_once requests schedule
  have hreturned : ∀ c ∈ (System.run requests schedule).callers, c.place.isReturned := by
    decide +kernel
  have hkeys : (System.run requests schedule).shared.keys = [bonus] := by
    decide +kernel
  rw [hall hreturned, hkeys]
  rfl

end Factory

end QuestFormula
