import QuestFormula.Proofs.State.Embedding

/-! Derivation.  A type derives from the types that it embeds, however deep.  A catalog compares the
types on the way to two members: one is more derived exactly if the way to the other goes on from its
declaring type.  So a more derived member is of a type that embeds the other one's, and a type that
embeds another one has more derived members than that one has on some way to it.  On a way around
the type they are not more derived, and a name can be ambiguous between the two; this happens to no
type that is reached in one way only. -/

namespace QuestFormula

/-- The type embeds the other one in one or more bases. -/
def StateType.Embeds (A B : StateType) : Prop := ∃ path : BasePath A B, 0 < path.length

/-- The types that declarations embed, at any depth. -/
def Declarations.embeddedTypes : Declarations → List StateType
  | .nil => []
  | .member _ rest => rest.embeddedTypes
  | .base typeName ds rest => ⟨typeName, ds⟩ :: (ds.embeddedTypes ++ rest.embeddedTypes)

/-- The type and those that it embeds. -/
def StateType.reached (S : StateType) : List StateType := S :: S.declarations.embeddedTypes

/-- No two types that the type reaches have one name. -/
def StateType.NamesTypes (S : StateType) : Prop :=
  ∀ A ∈ S.reached, ∀ B ∈ S.reached, A.name = B.name → A = B

instance (S : StateType) : Decidable S.NamesTypes :=
  inferInstanceAs (Decidable (∀ A ∈ S.reached, ∀ B ∈ S.reached, A.name = B.name → A = B))

/-- Every way to the declaring type goes through the same types. -/
def Binding.HasOneWay {S : StateType} (b : Binding S) : Prop :=
  ∀ b' : Binding S, b'.embedded.declaring = b.embedded.declaring → b'.types = b.types

instance {S : StateType} (b : Binding S) : Decidable b.HasOneWay :=
  let ways : List (Binding S) := S.declarations.accesses
  decidable_of_iff
    (∀ b' : Binding S, b' ∈ ways → b'.embedded.declaring = b.embedded.declaring →
      b'.types = b.types)
    ⟨fun h b' => h b' (Declarations.mem_accesses b'), fun h b' _ => h b'⟩

theorem BasePlace.reached_subset {B : StateType} {ds : Declarations} (p : BasePlace B ds) :
    B.reached ⊆ ds.embeddedTypes := by
  induction p with
  | here =>
    rw [Declarations.embeddedTypes, StateType.reached, ← List.cons_append]
    exact List.subset_append_left _ _
  | next p ih => exact ih
  | past p ih =>
    rw [Declarations.embeddedTypes, ← List.cons_append]
    exact fun A hA => List.mem_append_right _ (ih hA)

namespace BasePath

variable {S M T : StateType}

theorem mem_reached (path : BasePath S T) : T ∈ S.reached := by
  induction path with
  | nil => exact List.mem_cons_self
  | cons p rest ih => exact List.mem_cons_of_mem _ (p.reached_subset ih)

/-- One path and then another. -/
def append : {S M T : StateType} → BasePath S M → BasePath M T → BasePath S T
  | _, _, _, nil, path => path
  | _, _, _, cons p rest, path => cons p (rest.append path)

theorem getLast?_types (path : BasePath S T) : path.types.getLast? = some T.name := by
  induction path with
  | nil => rfl
  | cons p rest ih => rw [types, List.getLast?_cons, ih, Option.getD_some]

theorem types_append (front : BasePath S M) (back : BasePath M T) :
    (front.append back).types = front.types ++ back.types.tail := by
  induction front with
  | nil =>
    cases back with
    | nil => rfl
    | cons p rest => rfl
  | cons p rest ih => rw [append, types, types, ih, List.cons_append]

/-- A path goes through every type that it has on its way. -/
theorem exists_append {names : List String} (path : BasePath S T) (hne : names ≠ [])
    (h : names <+: path.types) :
    ∃ (M : StateType) (front : BasePath S M) (back : BasePath M T),
      front.types = names ∧ front.append back = path := by
  induction path generalizing names with
  | @nil S =>
    obtain ⟨name, rest, rfl⟩ := List.exists_cons_of_ne_nil hne
    obtain ⟨rfl, hrest⟩ := List.cons_prefix_cons.mp h
    rw [List.prefix_nil.mp hrest]
    exact ⟨S, nil, nil, rfl, rfl⟩
  | @cons S B T p path ih =>
    obtain ⟨name, rest, rfl⟩ := List.exists_cons_of_ne_nil hne
    obtain ⟨rfl, hrest⟩ := List.cons_prefix_cons.mp h
    cases rest with
    | nil => exact ⟨S, nil, cons p path, rfl, rfl⟩
    | cons second rest =>
      obtain ⟨M, front, back, htypes, rfl⟩ := ih (List.cons_ne_nil _ _) hrest
      exact ⟨M, cons p front, back, congrArg _ htypes, rfl⟩

/-- Where types are told by their names, the types on the way to a type lead on to another one
exactly if a path leads from it to that one. -/
theorem types_prefix_iff (hnames : S.NamesTypes) (front : BasePath S M) (path : BasePath S T) :
    front.types.length < path.types.length ∧ front.types <+: path.types ↔
      ∃ back : BasePath M T, 0 < back.length ∧ path.types = (front.append back).types := by
  constructor
  · rintro ⟨hlength, hprefix⟩
    have hne : front.types ≠ [] := fun h => by simpa [h] using front.getLast?_types
    obtain ⟨M', front', back, htypes, rfl⟩ := path.exists_append hne hprefix
    have hname : M'.name = M.name := Option.some.inj <| by
      rw [← front'.getLast?_types, htypes, front.getLast?_types]
    obtain rfl := hnames M' front'.mem_reached M front.mem_reached hname
    rw [types_append, List.length_append, List.length_tail, back.length_types, htypes] at hlength
    refine ⟨back, by omega, ?_⟩
    rw [types_append, types_append, htypes]
  · rintro ⟨back, hback, htypes⟩
    rw [htypes, types_append, List.length_append, List.length_tail, back.length_types]
    exact ⟨by omega, List.prefix_append _ _⟩

end BasePath

namespace Binding

variable {S : StateType}

/-- The same member on another way to its declaring type. -/
def along (b : Binding S) (path : BasePath S b.embedded.declaring) : Binding S :=
  Embedded.access ⟨b.embedded.declaring, path, b.embedded.place⟩

theorem embedded_along (b : Binding S) (path : BasePath S b.embedded.declaring) :
    (b.along path).embedded = ⟨b.embedded.declaring, path, b.embedded.place⟩ :=
  Embedded.embedded_access _

theorem types_along (b : Binding S) (path : BasePath S b.embedded.declaring) :
    (b.along path).types = path.types :=
  Embedded.types_access _

theorem along_path (b : Binding S) : b.along b.embedded.path = b :=
  b.access_embedded

theorem isMoreDerivedThan_along_iff (hnames : S.NamesTypes) (a b : Binding S)
    (path : BasePath S b.embedded.declaring) :
    a.isMoreDerivedThan (b.along path) = true ↔
      ∃ back : BasePath a.embedded.declaring b.embedded.declaring,
        0 < back.length ∧ path.types = (a.embedded.path.append back).types := by
  rw [isMoreDerivedThan_iff, types_along, ← types_embedded]
  exact BasePath.types_prefix_iff hnames _ path

/-- A type embeds another one exactly if its members are more derived on some way to that one. -/
theorem embeds_iff_exists_along (hnames : S.NamesTypes) (a b : Binding S) :
    a.embedded.declaring.Embeds b.embedded.declaring ↔
      ∃ path : BasePath S b.embedded.declaring, a.isMoreDerivedThan (b.along path) = true := by
  constructor
  · rintro ⟨back, hback⟩
    exact ⟨a.embedded.path.append back,
      (isMoreDerivedThan_along_iff hnames a b _).mpr ⟨back, hback, rfl⟩⟩
  · rintro ⟨path, hpath⟩
    obtain ⟨back, hback, -⟩ := (isMoreDerivedThan_along_iff hnames a b path).mp hpath
    exact ⟨back, hback⟩

theorem HasOneWay.isMoreDerivedThan_iff_embeds {b : Binding S} (h : b.HasOneWay)
    (hnames : S.NamesTypes) (a : Binding S) :
    a.isMoreDerivedThan b = true ↔ a.embedded.declaring.Embeds b.embedded.declaring := by
  rw [embeds_iff_exists_along hnames]
  constructor
  · intro hab
    exact ⟨b.embedded.path, by rwa [along_path]⟩
  · rintro ⟨path, hpath⟩
    have htypes : (b.along path).types = b.types := h _ (by rw [embedded_along])
    rw [isMoreDerivedThan_iff, htypes] at hpath
    exact isMoreDerivedThan_iff.mpr hpath

/-- Where types are told by their names, a member is more derived than another one exactly if a path
from its declaring type continues the way to it to that of the other; and the declaring type embeds
the other one exactly if the member is more derived on some way to the other.  These are the same if
there is one way, and then the other member is no rival in a name to which a member of an embedding
type answers. -/
theorem moreDerived_follows_ways (S : StateType) (hnames : S.NamesTypes) :
    (∀ a b : Binding S, a.isMoreDerivedThan b = true ↔
      ∃ path : BasePath a.embedded.declaring b.embedded.declaring,
        0 < path.length ∧ b.types = (a.embedded.path.append path).types) ∧
    (∀ a b : Binding S, a.embedded.declaring.Embeds b.embedded.declaring ↔
      ∃ path : BasePath S b.embedded.declaring, a.isMoreDerivedThan (b.along path) = true) ∧
    (∀ a b : Binding S, b.HasOneWay →
      (a.isMoreDerivedThan b = true ↔ a.embedded.declaring.Embeds b.embedded.declaring)) ∧
    ∀ formula name names,
      (Catalog.build S).lookup formula name = .error (.ambiguousVariable formula name names) →
      names = ((Catalog.build S).leaders name).map (·.qualifiedName) ∧
      ∀ b ∈ (Catalog.build S).leaders name, b.HasOneWay → ∀ a : Binding S, a.Answers name →
        ¬a.embedded.declaring.Embeds b.embedded.declaring := by
  refine ⟨fun a b => ?_, embeds_iff_exists_along hnames,
    fun a b hb => hb.isMoreDerivedThan_iff_embeds hnames a, fun formula name names h =>
      ⟨(Catalog.lookup_eq_ambiguous_iff.mp h).2, fun b hb hway a ha hembeds => ?_⟩⟩
  · rw [← b.types_embedded, ← isMoreDerivedThan_along_iff hnames, along_path]
  · have hlead := (Catalog.mem_leaders_build.mp hb).2 a ha
    rw [(hway.isMoreDerivedThan_iff_embeds hnames a).mpr hembeds] at hlead
    cases hlead

end Binding

/-- A state type that embeds the quest after a hunt that embeds it too. -/
def campaignState : StateType :=
  let score : Member := ⟨"score", none, false, "f64", .readable (.number .float64)⟩
  let quest : Declarations := .member score .nil
  let hunt : Declarations := .member score (.base "Quest" quest .nil)
  ⟨"Campaign", .member ⟨"bonus", none, false, "f64", .readable (.number .float64)⟩
    (.base "Hunt" hunt (.base "Quest" quest .nil))⟩

namespace campaignState

def bonus : Binding campaignState := .here

/-- The score of the hunt. -/
def hunt : Binding campaignState := .next (.inside .here)

/-- The score of the quest beside the hunt. -/
def quest : Binding campaignState := .next (.past (.inside .here))

/-- The hunt is reached in one way, so it is no rival of a member of a type that embeds it. -/
theorem moreDerived_follows_ways_campaign :
    campaignState.NamesTypes ∧ hunt.HasOneWay ∧ bonus.isMoreDerivedThan hunt = true ∧
      bonus.embedded.declaring.Embeds hunt.embedded.declaring ∧
      hunt ∈ (Catalog.build campaignState).leaders "score" ∧
      ∀ a : Binding campaignState, a.Answers "score" →
        ¬a.embedded.declaring.Embeds hunt.embedded.declaring := by
  have hnames : campaignState.NamesTypes := by decide
  have hway : hunt.HasOneWay := by decide
  have hlead : hunt ∈ (Catalog.build campaignState).leaders "score" := by decide +kernel
  have hlookup : (Catalog.build campaignState).lookup "score" "score" =
      .error (.ambiguousVariable "score" "score" ["Hunt::score", "Quest::score"]) := by cbv
  obtain ⟨-, -, hembeds, hrivals⟩ := Binding.moreDerived_follows_ways campaignState hnames
  have hbonus : bonus.isMoreDerivedThan hunt = true := by decide
  exact ⟨hnames, hway, hbonus, (hembeds bonus hunt hway).mp hbonus, hlead,
    (hrivals _ _ _ hlookup).2 hunt hlead hway⟩

/-- The hunt embeds the quest, but its score is not more derived than that of the quest beside it;
so the score of the campaign is ambiguous between the two. -/
theorem not_moreDerived_of_embeds :
    campaignState.NamesTypes ∧ hunt ∈ (Catalog.build campaignState).bindings ∧
      quest ∈ (Catalog.build campaignState).bindings ∧
      hunt.embedded.declaring.Embeds quest.embedded.declaring ∧
      hunt.isMoreDerivedThan quest = false ∧
      (Catalog.build campaignState).lookup "score" "score" =
        .error (.ambiguousVariable "score" "score" ["Hunt::score", "Quest::score"]) := by
  have hembeds : hunt.embedded.declaring.Embeds quest.embedded.declaring :=
    ⟨.cons (.next .here) .nil, by decide⟩
  exact ⟨by decide, Catalog.mem_bindings_build.mpr rfl, Catalog.mem_bindings_build.mpr rfl, hembeds,
    by decide, by cbv⟩

end campaignState

end QuestFormula
