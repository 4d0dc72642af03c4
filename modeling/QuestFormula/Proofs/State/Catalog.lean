import Mathlib
import QuestFormula.State.Catalog

/-! The members and the names of a catalog.  A catalog binds every member of the declarations that
is not excluded, once, whatever bases are embedded and however often, and the index of names gives
the same bindings as a scan: `candidates_build` says that the candidates of a name are the bindings
of the catalog that answer to it, in catalog order. -/

namespace QuestFormula

theorem Declarations.mem_accesses : {ds : Declarations} → (a : Access ds) → a ∈ ds.accesses
  | .member _ _, .here => List.mem_cons_self
  | .member _ _, .next a => List.mem_cons_of_mem _ (List.mem_map_of_mem (mem_accesses a))
  | .base _ _ _, .inside a => List.mem_append_left _ (List.mem_map_of_mem (mem_accesses a))
  | .base _ _ _, .past a => List.mem_append_right _ (List.mem_map_of_mem (mem_accesses a))

theorem Declarations.nodup_accesses (ds : Declarations) : ds.accesses.Nodup := by
  induction ds with
  | nil => exact List.nodup_nil
  | member m rest ih =>
    refine List.nodup_cons.mpr ⟨by simp, ih.map fun a b h => ?_⟩
    exact Access.next.inj h
  | base typeName embedded rest ihe ihr =>
    refine List.nodup_append.mpr ⟨ihe.map fun a b h => Access.inside.inj h,
      ihr.map fun a b h => Access.past.inj h, ?_⟩
    intro a ha b hb
    obtain ⟨a', -, rfl⟩ := List.mem_map.mp ha
    obtain ⟨b', -, rfl⟩ := List.mem_map.mp hb
    exact fun h => nomatch h

namespace Access

theorem lineage_ne_nil (owner : String) : {ds : Declarations} → (a : Access ds) →
    a.lineage owner ≠ []
  | .member _ _, here => List.cons_ne_nil _ _
  | .member _ _, next a => lineage_ne_nil owner a
  | .base _ _ _, inside _ => List.cons_ne_nil _ _
  | .base _ _ _, past a => lineage_ne_nil owner a

/-- No way goes into more bases than the height of the declarations. -/
theorem length_lineage_le (owner : String) : {ds : Declarations} → (a : Access ds) →
    (a.lineage owner).length ≤ ds.height + 1
  | .member _ _, here => Nat.le_add_left _ _
  | .member _ _, next a => length_lineage_le owner a
  | .base typeName embedded _, inside a => by
    have := length_lineage_le typeName a
    simp only [lineage, List.length_cons, Declarations.height]
    omega
  | .base _ _ rest, past a => by
    have := length_lineage_le owner a
    simp only [lineage, Declarations.height]
    omega

/-- A member can be read unless its type has no number. -/
theorem reader?_eq_none_iff : {ds : Declarations} → (a : Access ds) →
    (a.reader? = none ↔ a.member.type = .unreadable)
  | .member ⟨_, _, _, _, .readable t⟩ _, here => by simp [reader?, member, MemberType.reduce?]
  | .member ⟨_, _, _, _, .unreadable⟩ _, here => by simp [reader?, member, MemberType.reduce?]
  | .member _ _, next a | .base _ _ _, inside a | .base _ _ _, past a => by
    simp [reader?, member, reader?_eq_none_iff a]

end Access

theorem Member.mem_names {m : Member} {name : String} :
    name ∈ m.names ↔ m.name = name ∨ m.otherName = some name := by
  cases h : m.otherName with
  | none => simp [names, h, eq_comm]
  | some other =>
    by_cases ho : other = m.name
    · simp [names, h, ho, Option.filter_some, eq_comm]
    · simp [names, h, ho, Option.filter_some, eq_comm]

theorem Member.nodup_names (m : Member) : m.names.Nodup := by
  cases h : m.otherName with
  | none => simp [names, h]
  | some other =>
    by_cases ho : other = m.name
    · simp [names, h, ho, Option.filter_some]
    · simp [names, h, ho, Option.filter_some, Ne.symm ho]

namespace Binding

variable {S : StateType}

theorem depth_le_height (b : Binding S) : b.depth ≤ S.declarations.height := by
  have : b.types.length ≤ S.declarations.height + 1 := Access.length_lineage_le S.name b
  rw [depth]
  omega

/-- Formulas may name the member, and the name is one of its names. -/
def Answers (b : Binding S) (name : String) : Prop :=
  b.member.excluded = false ∧ (b.member.name = name ∨ b.member.otherName = some name)

end Binding

/-! ### The index of names -/

namespace NameIndex

theorem slots_add (index : NameIndex) (name other : String) (slot : Nat) :
    (index.add name slot).slots other =
      index.slots other ++ if other = name then [slot] else [] := by
  induction index with
  | nil =>
    by_cases h : other = name
    · simp [add, slots, h]
    · simp [add, slots, h, Ne.symm h]
  | cons entry rest ih =>
    obtain ⟨known, known_slots⟩ := entry
    by_cases hk : known = name
    · subst hk
      by_cases ho : known = other
      · simp [add, slots, ho]
      · simp [add, slots, ho, Ne.symm ho]
    · by_cases ho : known = other
      · subst ho
        simp [add, slots, hk]
      · simp [add, slots, hk, ho, ih]

theorem slots_foldl_add {names : List String} (hn : names.Nodup) (index : NameIndex)
    (other : String) (slot : Nat) :
    (names.foldl (fun index name => index.add name slot) index).slots other =
      index.slots other ++ if other ∈ names then [slot] else [] := by
  induction names generalizing index with
  | nil => simp
  | cons name names ih =>
    obtain ⟨hname, hn⟩ := List.nodup_cons.mp hn
    rw [List.foldl_cons, ih hn, slots_add, List.append_assoc]
    by_cases ho : other = name
    · subst ho
      simp [hname]
    · simp [ho]

/-- The slots that an index gives to a name after more bindings, looked up among all bindings. -/
theorem filterMap_slots_ofMembers {S : StateType} (name : String) (before bs : List (Binding S))
    (index : NameIndex) :
    ((ofMembers before.length index (bs.map Access.member)).slots name).filterMap
        (fun slot => (before ++ bs)[slot]?) =
      (index.slots name).filterMap (fun slot => (before ++ bs)[slot]?) ++
        bs.filter (fun b => name ∈ b.member.names) := by
  induction bs generalizing before index with
  | nil => simp [ofMembers]
  | cons b bs ih =>
    have := ih (before ++ [b]) (b.member.names.foldl
      (fun index name => index.add name before.length) index)
    simp only [List.length_append, List.length_singleton, List.append_assoc,
      List.singleton_append] at this
    rw [List.map_cons, ofMembers, this, slots_foldl_add b.member.nodup_names,
      List.filterMap_append, List.append_assoc]
    congr 1
    by_cases hb : name ∈ b.member.names <;> simp [hb]

end NameIndex

/-! ### The catalog of a state type -/

namespace Catalog

variable {S : StateType}

theorem mem_byDepth {height : Nat} {bs : List (Binding S)} {b : Binding S} :
    b ∈ byDepth height bs ↔ b ∈ bs ∧ b.depth ≤ height := by
  simp only [byDepth, List.mem_flatMap, List.mem_range, List.mem_filter, decide_eq_true_eq]
  constructor
  · rintro ⟨depth, hdepth, hb, rfl⟩
    exact ⟨hb, by omega⟩
  · rintro ⟨hb, hdepth⟩
    exact ⟨b.depth, by omega, hb, rfl⟩

theorem nodup_byDepth {height : Nat} {bs : List (Binding S)} (h : bs.Nodup) :
    (byDepth height bs).Nodup := by
  refine List.nodup_flatMap.mpr ⟨fun depth _ => h.filter _, List.nodup_range.imp fun hne => ?_⟩
  intro b hb hb'
  have h1 := (List.mem_filter.mp hb).2
  have h2 := (List.mem_filter.mp hb').2
  simp only [decide_eq_true_eq] at h1 h2
  exact hne (h1.symm.trans h2)

theorem filter_byDepth (height : Nat) (wanted : Binding S → Bool) (bs : List (Binding S)) :
    (byDepth height bs).filter wanted = byDepth height (bs.filter wanted) := by
  simp [byDepth, List.filter_flatMap, List.filter_filter, Bool.and_comm]

theorem mem_bindings_build {b : Binding S} :
    b ∈ (build S).bindings ↔ b.member.excluded = false := by
  simp [build, mem_byDepth, Declarations.mem_accesses, b.depth_le_height]

theorem nodup_bindings_build (S : StateType) : (build S).bindings.Nodup :=
  nodup_byDepth (S.declarations.nodup_accesses.filter _)

theorem index_build (S : StateType) :
    (build S).index = NameIndex.ofMembers 0 [] ((build S).bindings.map Access.member) := rfl

/-- The index gives the bindings that a scan for the name gives. -/
theorem candidates_build (S : StateType) (name : String) :
    (build S).candidates name =
      (build S).bindings.filter fun b => name ∈ b.member.names := by
  have := NameIndex.filterMap_slots_ofMembers name [] (build S).bindings []
  rw [candidates, candidateSlots, index_build]
  simpa [NameIndex.slots] using this

theorem mem_candidates_build {b : Binding S} {name : String} :
    b ∈ (build S).candidates name ↔ b.Answers name := by
  simp [candidates_build, mem_bindings_build, Member.mem_names, Binding.Answers]

end Catalog

end QuestFormula
