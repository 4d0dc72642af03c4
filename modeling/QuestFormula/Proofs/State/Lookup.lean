import QuestFormula.Proofs.State.Catalog

/-! Which member a name refers to.  Being more derived is a strict partial order of the bindings,
and every candidate of a name is a leader or below one, so a name that has candidates has leaders;
and a leader without a rival is more derived than all other candidates.  `lookup_build` puts these
together: a name refers to the leader, if there is exactly one and it can be read. -/

namespace QuestFormula

theorem MemberType.reduction_eq_notNumeric_iff {t : MemberType} :
    t.reduction = .notNumeric ↔ t = .unreadable := by
  match t with
  | .unreadable => simp [reduction]
  | .readable (.number .float64) => simp [reduction, ReadableType.reduction]
  | .readable (.number .float32) => simp [reduction, ReadableType.reduction]
  | .readable (.number (.integer _)) => simp [reduction, ReadableType.reduction]
  | .readable .truth | .readable .text => simp [reduction, ReadableType.reduction]
  | .readable (.parameter _) => simp [reduction, ReadableType.reduction]

namespace Binding

variable {S : StateType}

theorem isMoreDerivedThan_iff {a b : Binding S} :
    a.isMoreDerivedThan b = true ↔ a.types.length < b.types.length ∧ a.types <+: b.types := by
  simp [isMoreDerivedThan]

theorem isMoreDerivedThan_irrefl (b : Binding S) : b.isMoreDerivedThan b = false := by
  simp [isMoreDerivedThan]

theorem isMoreDerivedThan_trans {a b c : Binding S} (hab : a.isMoreDerivedThan b = true)
    (hbc : b.isMoreDerivedThan c = true) : a.isMoreDerivedThan c = true := by
  rw [isMoreDerivedThan_iff] at *
  exact ⟨Nat.lt_trans hab.1 hbc.1, hab.2.trans hbc.2⟩

/-- The member answers to the name, and no more derived one does. -/
def Leads (b : Binding S) (name : String) : Prop :=
  b.Answers name ∧ ∀ a : Binding S, a.Answers name → a.isMoreDerivedThan b = false

/-- Every candidate is a leader or less derived than one. -/
theorem Answers.exists_leads {b : Binding S} {name : String} (h : b.Answers name) :
    ∃ w : Binding S, w.Leads name ∧ (w = b ∨ w.isMoreDerivedThan b = true) := by
  -- By induction on the number of types on the way, which is less for a more derived candidate.
  induction hn : b.types.length using Nat.strongRecOn generalizing b with
  | ind n ih =>
    by_cases hb : ∃ a : Binding S, a.Answers name ∧ a.isMoreDerivedThan b = true
    · obtain ⟨a, ha, hab⟩ := hb
      obtain ⟨w, hw, hwa⟩ := ih _ (hn ▸ (isMoreDerivedThan_iff.mp hab).1) ha rfl
      refine ⟨w, hw, .inr ?_⟩
      rcases hwa with rfl | hwa
      · exact hab
      · exact isMoreDerivedThan_trans hwa hab
    · refine ⟨b, ⟨h, fun a ha => ?_⟩, .inl rfl⟩
      by_contra hab
      exact hb ⟨a, ha, by simpa using hab⟩

/-- A leader without a rival is more derived than all other candidates. -/
theorem Answers.isMoreDerivedThan {w b : Binding S} {name : String} (hb : b.Answers name)
    (hw : ∀ a : Binding S, a.Leads name → a = w) (hne : b ≠ w) : w.isMoreDerivedThan b = true := by
  obtain ⟨a, ha, hab⟩ := hb.exists_leads
  obtain rfl := hw a ha
  rcases hab with rfl | hab
  · exact absurd rfl hne
  · exact hab

end Binding

namespace Catalog

variable {S : StateType}

/-- The candidates of a name that no candidate is more derived than. -/
def leaders (c : Catalog S) (name : String) : List (Binding S) :=
  (c.candidates name).filter fun b => !(c.candidates name).any (·.isMoreDerivedThan b)

theorem mem_leaders_build {b : Binding S} {name : String} :
    b ∈ (build S).leaders name ↔ b.Leads name := by
  simp [leaders, mem_candidates_build, Binding.Leads]

theorem leaders_build_sublist (S : StateType) (name : String) :
    ((build S).leaders name).Sublist (build S).bindings := by
  refine List.filter_sublist.trans ?_
  rw [candidates_build]
  exact List.filter_sublist

theorem nodup_leaders_build (S : StateType) (name : String) : ((build S).leaders name).Nodup :=
  (nodup_bindings_build S).sublist (leaders_build_sublist S name)

theorem leaders_build_eq_nil_iff {name : String} :
    (build S).leaders name = [] ↔ ∀ b : Binding S, ¬b.Answers name := by
  constructor
  · intro h b hb
    obtain ⟨w, hw, -⟩ := hb.exists_leads
    have := mem_leaders_build.mpr hw
    simp [h] at this
  · intro h
    refine List.eq_nil_iff_forall_not_mem.mpr fun b hb => ?_
    exact h b (mem_leaders_build.mp hb).1

theorem leaders_build_eq_singleton_iff {w : Binding S} {name : String} :
    (build S).leaders name = [w] ↔ w.Leads name ∧ ∀ b : Binding S, b.Leads name → b = w := by
  have hn := nodup_leaders_build S name
  simp only [← mem_leaders_build]
  match (build S).leaders name, hn with
  | [], _ => simp
  | [a], _ => simp +contextual [eq_comm]
  | a :: b :: rest, hn =>
    refine ⟨fun h => (by simp at h), fun ⟨_, hu⟩ => ?_⟩
    have hab : a = b := (hu a (by simp)).trans (hu b (by simp)).symm
    simp [hab] at hn

/-- A catalog has two leaders or more exactly if two bindings lead that are not the same. -/
theorem two_le_length_leaders_build_iff {name : String} :
    2 ≤ ((build S).leaders name).length ↔
      ∃ a b : Binding S, a ≠ b ∧ a.Leads name ∧ b.Leads name := by
  have hn := nodup_leaders_build S name
  simp only [← mem_leaders_build]
  match (build S).leaders name, hn with
  | [], _ => simp
  | [c], _ => simp +contextual
  | a :: b :: rest, hn =>
    have hab : a ≠ b := by
      rintro rfl
      simp at hn
    exact ⟨fun _ => ⟨a, b, hab, by simp, by simp⟩, fun _ => by simp⟩

theorem lookup_of_leaders_eq_nil {c : Catalog S} {formula name : String}
    (h : c.leaders name = []) :
    c.lookup formula name = .error (.unknownVariable formula name S.name) := by
  rw [leaders] at h
  rw [lookup, h]

theorem lookup_of_leaders_eq_singleton {c : Catalog S} {formula name : String} {w : Binding S}
    (h : c.leaders name = [w]) :
    c.lookup formula name = if w.member.type = .unreadable then
      .error (.nonNumericVariable formula name w.member.typeName) else .ok w := by
  rw [leaders] at h
  rw [lookup, h]
  simp only [MemberType.reduction_eq_notNumeric_iff]

theorem lookup_of_two_le_leaders {c : Catalog S} {formula name : String}
    (h : 2 ≤ (c.leaders name).length) :
    c.lookup formula name =
      .error (.ambiguousVariable formula name ((c.leaders name).map (·.qualifiedName))) := by
  rw [lookup]
  unfold leaders at h ⊢
  split <;> simp_all

theorem lookup_eq_unknown_iff {c : Catalog S} {formula name : String} :
    c.lookup formula name = .error (.unknownVariable formula name S.name) ↔
      c.leaders name = [] := by
  match h : c.leaders name with
  | [] => simp [lookup_of_leaders_eq_nil h]
  | [w] =>
    rw [lookup_of_leaders_eq_singleton h]
    split <;> simp
  | a :: b :: rest =>
    rw [lookup_of_two_le_leaders (by simp [h])]
    simp

theorem lookup_eq_ambiguous_iff {c : Catalog S} {formula name : String} {names : List String} :
    c.lookup formula name = .error (.ambiguousVariable formula name names) ↔
      2 ≤ (c.leaders name).length ∧ names = (c.leaders name).map (·.qualifiedName) := by
  match h : c.leaders name with
  | [] => simp [lookup_of_leaders_eq_nil h]
  | [w] =>
    rw [lookup_of_leaders_eq_singleton h]
    split <;> simp
  | a :: b :: rest =>
    rw [lookup_of_two_le_leaders (by simp [h]), h]
    simp [eq_comm]

theorem lookup_eq_ok_iff {c : Catalog S} {formula name : String} {w : Binding S} :
    c.lookup formula name = .ok w ↔ c.leaders name = [w] ∧ w.member.type ≠ .unreadable := by
  match h : c.leaders name with
  | [] => simp [lookup_of_leaders_eq_nil h]
  | [a] =>
    rw [lookup_of_leaders_eq_singleton h]
    split
    · rename_i ht
      simp only [reduceCtorEq, List.cons.injEq, and_true, false_iff, not_and, not_not]
      rintro rfl
      exact ht
    · rename_i ht
      simp only [Except.ok.injEq, List.cons.injEq, and_true, iff_self_and]
      rintro rfl
      exact ht
  | a :: b :: rest =>
    rw [lookup_of_two_le_leaders (by simp [h])]
    simp

/-- A name without candidates is unknown, and one with candidates has leaders; a name with several
leaders is ambiguous between them, in catalog order; and a name with one leader refers to it, which
is more derived than every other candidate, and can be read unless its type has no number. -/
theorem lookup_build (S : StateType) (formula name : String) :
    ((build S).leaders name).Sublist (build S).bindings ∧ (build S).bindings.Nodup ∧
    (∀ b, b ∈ (build S).leaders name ↔ b.Leads name) ∧
    ((∃ b : Binding S, b.Answers name) → (build S).leaders name ≠ []) ∧
    ((build S).lookup formula name = .error (.unknownVariable formula name S.name) ↔
      ∀ b : Binding S, ¬b.Answers name) ∧
    ((∃ names, (build S).lookup formula name = .error (.ambiguousVariable formula name names)) ↔
      ∃ a b : Binding S, a ≠ b ∧ a.Leads name ∧ b.Leads name) ∧
    (∀ names, (build S).lookup formula name = .error (.ambiguousVariable formula name names) →
      names = ((build S).leaders name).map (·.qualifiedName)) ∧
    ∀ w : Binding S, w.Leads name → (∀ b : Binding S, b.Leads name → b = w) →
      (∀ b : Binding S, b.Answers name → b ≠ w → w.isMoreDerivedThan b = true) ∧
      ((build S).lookup formula name =
          .error (.nonNumericVariable formula name w.member.typeName) ↔
        w.member.type = .unreadable) ∧
      ((build S).lookup formula name = .ok w ↔ w.member.type ≠ .unreadable) := by
  refine ⟨leaders_build_sublist S name, nodup_bindings_build S, fun b => mem_leaders_build,
    fun ⟨b, hb⟩ hnil => leaders_build_eq_nil_iff.mp hnil b hb,
    lookup_eq_unknown_iff.trans leaders_build_eq_nil_iff, ?_,
    fun names h => (lookup_eq_ambiguous_iff.mp h).2, fun w hw hu => ?_⟩
  · rw [← two_le_length_leaders_build_iff]
    simp only [lookup_eq_ambiguous_iff, exists_and_left, exists_eq, and_true]
  · have hone := leaders_build_eq_singleton_iff.mpr ⟨hw, hu⟩
    refine ⟨fun b hb hne => hb.isMoreDerivedThan hu hne, ?_, ?_⟩
    · rw [lookup_of_leaders_eq_singleton hone]
      split <;> simp_all
    · rw [lookup_eq_ok_iff]
      simp [hone]

end Catalog

/-- A state type that embeds another one twice, hides the score of both by a member without a
number, and has two numbers of its own. -/
def huntState : StateType :=
  let quest : Declarations :=
    .member ⟨"score", none, false, "f64", .readable (.number .float64)⟩ .nil
  ⟨"Hunt", .base "Quest" quest (.base "Quest" quest
    (.member ⟨"score", none, false, "()", .unreadable⟩
      (.member ⟨"bonus", some "b", false, "f64", .readable (.number .float64)⟩
        (.member ⟨"level", none, false, "f64", .readable (.number .float64)⟩ .nil))))⟩

/-- The member of the state type itself leads, though it cannot be read and the others can. -/
theorem lookup_score_huntState :
    let score : Binding huntState := .past (.past .here)
    score.Leads "score" ∧ (∀ b : Binding huntState, b.Answers "score" → b ≠ score →
      score.isMoreDerivedThan b = true) ∧
    (Catalog.build huntState).lookup "score" "score" =
      .error (.nonNumericVariable "score" "score" "()") := by
  intro score
  have hlead : score.Leads "score" := by
    refine ⟨⟨rfl, .inl rfl⟩, fun a ha => ?_⟩
    match a with
    | .inside _ | .past (.inside _) | .past (.past .here) => rfl
    | .past (.past (.next .here)) | .past (.past (.next (.next .here))) => rfl
  have hunique : ∀ b : Binding huntState, b.Leads "score" → b = score := by
    intro b ⟨⟨_, hname⟩, hb⟩
    have hbeaten := hb score hlead.1
    match b with
    | .past (.past .here) => rfl
    | .inside .here | .past (.inside .here) => exact absurd hbeaten (by decide)
    | .past (.past (.next .here)) | .past (.past (.next (.next .here))) =>
      exact absurd hname (by decide)
  have h := (Catalog.lookup_build huntState "score" "score").2.2.2.2.2.2.2 score hlead hunique
  exact ⟨hlead, h.1, h.2.1.mpr rfl⟩

end QuestFormula
