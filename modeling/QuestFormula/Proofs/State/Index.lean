import QuestFormula.Proofs.State.Catalog

/-! The index of names beside a scan of the bindings.  A member adds its slot at the end of the
slots of each of its names, only once if both are the same, so the slots of a name are those that a
scan of the members finds, in their order.  They are slots of the catalog, and lead to the bindings
that answer to the name and to no others. -/

namespace QuestFormula

/-- After the slots that it had, a name is given those that a scan of the members finds. -/
theorem NameIndex.slots_ofMembers (name : String) (slot : Nat) (index : NameIndex)
    (members : List Member) : (ofMembers slot index members).slots name =
      index.slots name ++ members.findIdxs (fun m => name ∈ m.names) slot := by
  induction members generalizing slot index with
  | nil => simp [ofMembers]
  | cons m members ih =>
    rw [ofMembers, ih, slots_foldl_add m.nodup_names, List.findIdxs_cons, List.append_assoc]
    by_cases hm : name ∈ m.names
    · simp [hm]
    · simp [hm]

/-- The elements at the places that a scan finds are those that it looks for. -/
theorem map_getElem?_findIdxs {α : Type} (p : α → Bool) (l : List α) :
    (l.findIdxs p).map (fun i => l[i]?) = (l.filter p).map some := by
  induction l with
  | nil => rfl
  | cons a l ih =>
    rw [List.findIdxs_cons, List.findIdxs_start, List.filter_cons]
    by_cases ha : p a
    · simpa [ha, Function.comp_def] using ih
    · simpa [ha, Function.comp_def] using ih

/-- A member lists a name once if it answers to it. -/
theorem Member.count_names (m : Member) (name : String) :
    m.names.count name = if name ∈ m.names then 1 else 0 := by
  by_cases hm : name ∈ m.names
  · rw [if_pos hm, List.count_eq_one_of_mem m.nodup_names hm]
  · rw [if_neg hm, List.count_eq_zero_of_not_mem hm]

namespace Catalog

variable {S : StateType}

theorem candidateSlots_build (S : StateType) (name : String) :
    (build S).candidateSlots name =
      (build S).bindings.findIdxs fun b => name ∈ b.member.names := by
  rw [candidateSlots, index_build, NameIndex.slots_ofMembers, List.findIdxs_map]
  rfl

theorem count_names_build (S : StateType) (name : String) :
    (build S).names.count name = ((build S).candidates name).length := by
  rw [names, List.count_flatMap, candidates_build, ← List.countP_eq_length_filter]
  induction (build S).bindings with
  | nil => rfl
  | cons b bindings ih =>
    rw [List.map_cons, List.sum_cons, ih, List.countP_cons, Nat.add_comm]
    simp [Member.count_names]

/-- The candidates of a name are the bindings whose member has it as its name or its other name, in
catalog order and each once; the index holds exactly their slots.  So every binding is a candidate
of each of its names, and the names of a catalog are those of its bindings, one binding after
another, with every name as often as it has candidates. -/
theorem candidates_by_scan (S : StateType) (name : String) :
    let answers (b : Binding S) : Bool := b.member.name = name ∨ b.member.otherName = some name
    (build S).candidates name = (build S).bindings.filter answers ∧
    ((build S).candidates name).Nodup ∧
    (build S).candidateSlots name = (build S).bindings.findIdxs answers ∧
    ((build S).candidateSlots name).map (fun slot => (build S).bindings[slot]?) =
      ((build S).candidates name).map some ∧
    (∀ b ∈ (build S).bindings, b ∈ (build S).candidates b.member.name ∧
      ∀ other, b.member.otherName = some other → b ∈ (build S).candidates other) ∧
    (build S).names = (build S).bindings.flatMap (fun b =>
      if b.member.otherName = some b.member.name then [b.member.name]
      else b.member.name :: b.member.otherName.toList) ∧
    (build S).names.count name = ((build S).candidates name).length := by
  intro answers
  have hanswers : answers = fun b => decide (name ∈ b.member.names) :=
    funext fun b => decide_eq_decide.mpr Member.mem_names.symm
  rw [hanswers, ← candidates_build, ← candidateSlots_build]
  refine ⟨rfl, ?_, rfl, ?_, fun b hb => ?_, ?_, count_names_build S name⟩
  · rw [candidates_build]
    exact (nodup_bindings_build S).filter _
  · rw [candidateSlots_build, candidates_build, map_getElem?_findIdxs]
  · have hvisible := mem_bindings_build.mp hb
    exact ⟨mem_candidates_build.mpr ⟨hvisible, .inl rfl⟩,
      fun other hother => mem_candidates_build.mpr ⟨hvisible, .inr hother⟩⟩
  · refine List.flatMap_congr fun b _ => ?_
    rw [Member.names]
    cases h : b.member.otherName with
    | none => rfl
    | some other =>
      by_cases hsame : other = b.member.name
      · simp [hsame, Option.filter]
      · simp [hsame, Option.filter]

end Catalog

/-- A state type with a member under the name of another one, a member that has its own name twice,
and a member of a base that also answers to the empty name. -/
def aliasState : StateType :=
  let float : MemberType := .readable (.number .float64)
  ⟨"Raid", .base "Round" (.member ⟨"bonus", some "", false, "f64", float⟩ .nil)
    (.member ⟨"kills", some "score", false, "f64", float⟩
      (.member ⟨"score", some "score", false, "f64", float⟩
        (.member ⟨"seed", some "score", true, "f64", float⟩ .nil)))⟩

/-- The hidden member is no candidate, and the base comes last. -/
theorem candidates_by_scan_aliases :
    let kills : Binding aliasState := .past .here
    let score : Binding aliasState := .past (.next .here)
    let bonus : Binding aliasState := .inside .here
    let catalog := Catalog.build aliasState
    catalog.candidates "score" = [kills, score] ∧ catalog.candidateSlots "score" = [0, 1] ∧
    catalog.candidates "" = [bonus] ∧ catalog.candidates "seed" = [] ∧
    catalog.names = ["kills", "score", "score", "bonus", ""] ∧
    kills ∈ catalog.candidates "kills" := by
  intro kills score bonus catalog
  have hbindings : (Catalog.build aliasState).bindings = [kills, score, bonus] := by decide
  have hscan (name : String) := Catalog.candidates_by_scan aliasState name
  rw [hbindings] at hscan
  obtain ⟨hscore, -, hslots, -, hmem, hnames, -⟩ := hscan "score"
  exact ⟨hscore.trans (by decide), hslots.trans (by decide), (hscan "").1.trans (by decide),
    (hscan "seed").1.trans (by decide), hnames.trans (by decide),
    (hmem kills List.mem_cons_self).1⟩

end QuestFormula
