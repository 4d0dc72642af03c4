import QuestFormula.Proofs.State.Inheritance

/-! Where the bindings of a catalog come from.  A member that a state type declares or embeds is at
the end of a path of bases, which leads from the type to the one that declares it.  The accesses of
the catalog are these paths with their ends, one for one (`Binding.embedded`): the types on the way
are those of the path, a reading is that of the member in the state at the end of the path, and the
accesses come in the order of their positions, which compare entry by entry.  A catalog sorts them
by the lengths of their paths and keeps that order among paths of one length. -/

namespace QuestFormula

/-! ### Paths -/

/-- A place where declarations declare a member of their own. -/
inductive OwnMember : Declarations → Type where
  | here {m : Member} {rest : Declarations} : OwnMember (.member m rest)
  | next {m : Member} {rest : Declarations} (p : OwnMember rest) : OwnMember (.member m rest)
  | past {typeName : String} {embedded rest : Declarations} (p : OwnMember rest) :
      OwnMember (.base typeName embedded rest)

namespace OwnMember

def member : {ds : Declarations} → OwnMember ds → Member
  | .member m _, here => m
  | _, next p | _, past p => p.member

/-- The value of the member in a state. -/
def value : {ds : Declarations} → (p : OwnMember ds) → ds.State → p.member.type.Value
  | _, here, s => s.1
  | _, next p, s | _, past p, s => p.value s.2

/-- The number of entries before the member. -/
def index : {ds : Declarations} → OwnMember ds → Nat
  | _, here => 0
  | _, next p | _, past p => p.index + 1

def access : {ds : Declarations} → OwnMember ds → Access ds
  | _, here => .here
  | _, next p => .next p.access
  | _, past p => .past p.access

end OwnMember

/-- The number of entries before the base. -/
def BasePlace.index {B : StateType} : {ds : Declarations} → BasePlace B ds → Nat
  | _, here => 0
  | _, next p | _, past p => p.index + 1

/-- Bases one within the other, from a state type to the last one. -/
inductive BasePath : StateType → StateType → Type where
  | nil {S : StateType} : BasePath S S
  | cons {S B T : StateType} (p : BasePlace B S.declarations) (rest : BasePath B T) : BasePath S T

namespace BasePath

variable {S T : StateType}

/-- The number of bases. -/
def length : {S T : StateType} → BasePath S T → Nat
  | _, _, nil => 0
  | _, _, cons _ rest => rest.length + 1

/-- The names of the types on the path, the last one included. -/
def types : {S T : StateType} → BasePath S T → List String
  | S, _, nil => [S.name]
  | S, _, cons _ rest => S.name :: rest.types

/-- The state of the last base in a state. -/
def state : {S T : StateType} → BasePath S T → S.State → T.State
  | _, _, nil, s => s
  | _, _, cons p rest, s => rest.state (p.state s)

/-- The numbers of entries before the bases, each in the declarations that it stands in. -/
def indices : {S T : StateType} → BasePath S T → List Nat
  | _, _, nil => []
  | _, _, cons p rest => p.index :: rest.indices

def access : {S T : StateType} → BasePath S T → Access T.declarations → Access S.declarations
  | _, _, nil, a => a
  | _, _, cons p rest, a => p.access (rest.access a)

end BasePath

/-- A member that a state type declares or embeds: the path of bases to the type that declares it,
and its place there. -/
structure Embedded (S : StateType) where
  declaring : StateType
  path : BasePath S declaring
  place : OwnMember declaring.declarations

namespace Embedded

variable {S : StateType}

def member (e : Embedded S) : Member := e.place.member

/-- The number of entries before each base on the path, and before the member at its end. -/
def position (e : Embedded S) : List Nat := e.path.indices ++ [e.place.index]

/-- The member in the state at the end of the path, reduced to a number, if its type has one. -/
def read? (e : Embedded S) (state : S.State) : Option Float :=
  e.member.type.reduce?.map fun reduce => reduce (e.place.value (e.path.state state))

def access (e : Embedded S) : Binding S := e.path.access e.place.access

/-- The path goes into one more base first. -/
def inside {B : StateType} (p : BasePlace B S.declarations) (e : Embedded B) : Embedded S :=
  ⟨e.declaring, .cons p e.path, e.place⟩

/-- The same path and place where a member is declared before all else. -/
def next {m : Member} {owner : String} {ds : Declarations} :
    Embedded ⟨owner, ds⟩ → Embedded ⟨owner, .member m ds⟩
  | ⟨_, .nil, place⟩ => ⟨_, .nil, .next place⟩
  | ⟨_, .cons p rest, place⟩ => ⟨_, .cons (.next p) rest, place⟩

/-- The same path and place where a base is embedded before all else. -/
def past {typeName owner : String} {embedded ds : Declarations} :
    Embedded ⟨owner, ds⟩ → Embedded ⟨owner, .base typeName embedded ds⟩
  | ⟨_, .nil, place⟩ => ⟨_, .nil, .past place⟩
  | ⟨_, .cons p rest, place⟩ => ⟨_, .cons (.past p) rest, place⟩

end Embedded

/-- The path and the place that an access stands for. -/
def Access.embedded (owner : String) : {ds : Declarations} → Access ds → Embedded ⟨owner, ds⟩
  | _, here => ⟨_, .nil, .here⟩
  | _, next a => (a.embedded owner).next
  | .base typeName _ _, inside a => (a.embedded typeName).inside .here
  | _, past a => (a.embedded owner).past

/-- The path and the place that a binding stands for. -/
def Binding.embedded {S : StateType} (b : Binding S) : Embedded S := Access.embedded S.name b

/-! ### Accesses are paths with their ends -/

namespace OwnMember

variable {ds : Declarations} (p : OwnMember ds)

theorem member_access : p.access.member = p.member := by
  induction p with
  | here => rfl
  | next p ih => exact ih
  | past p ih => exact ih

theorem lineage_access (owner : String) : p.access.lineage owner = [owner] := by
  induction p with
  | here => rfl
  | next p ih => exact ih
  | past p ih => exact ih

theorem reader?_access :
    p.access.reader? = p.member.type.reduce?.map fun reduce s => reduce (p.value s) := by
  induction p with
  | here => rfl
  | next p ih =>
    rw [access, Access.reader?, ih, Option.map_map]
    rfl
  | past p ih =>
    rw [access, Access.reader?, ih, Option.map_map]
    rfl

theorem embedded_access (owner : String) :
    p.access.embedded owner = ⟨⟨owner, ds⟩, .nil, p⟩ := by
  induction p with
  | here => rfl
  | next p ih =>
    rw [access, Access.embedded, ih]
    rfl
  | past p ih =>
    rw [access, Access.embedded, ih]
    rfl

end OwnMember

theorem BasePlace.embedded_access {B : StateType} {ds : Declarations} (p : BasePlace B ds)
    (owner : String) (a : Access B.declarations) :
    (p.access a).embedded owner =
      Embedded.inside (S := ⟨owner, ds⟩) p (a.embedded B.name) := by
  induction p with
  | here => rfl
  | next p ih =>
    rw [access, Access.embedded, ih]
    rfl
  | past p ih =>
    rw [access, Access.embedded, ih]
    rfl

namespace Embedded

variable {S : StateType}

section Shift

variable {owner : String} {ds : Declarations} (e : Embedded ⟨owner, ds⟩)

theorem access_next {m : Member} :
    (e.next : Embedded ⟨owner, .member m ds⟩).access = .next e.access := by
  obtain ⟨declaring, path, place⟩ := e
  cases path with
  | nil => rfl
  | cons p rest => rfl

theorem access_past {typeName : String} {embedded : Declarations} :
    (e.past : Embedded ⟨owner, .base typeName embedded ds⟩).access = .past e.access := by
  obtain ⟨declaring, path, place⟩ := e
  cases path with
  | nil => rfl
  | cons p rest => rfl

theorem position_next {m : Member} :
    (e.next : Embedded ⟨owner, .member m ds⟩).position = e.position.modifyHead (· + 1) := by
  obtain ⟨declaring, path, place⟩ := e
  cases path with
  | nil => rfl
  | cons p rest => rfl

theorem position_past {typeName : String} {embedded : Declarations} :
    (e.past : Embedded ⟨owner, .base typeName embedded ds⟩).position =
      e.position.modifyHead (· + 1) := by
  obtain ⟨declaring, path, place⟩ := e
  cases path with
  | nil => rfl
  | cons p rest => rfl

end Shift

theorem access_embedded (owner : String) {ds : Declarations} (a : Access ds) :
    (a.embedded owner).access = a := by
  induction a generalizing owner with
  | here => rfl
  | next a ih => rw [Access.embedded, access_next, ih]
  | inside a ih => exact congrArg Access.inside (ih _)
  | past a ih => rw [Access.embedded, access_past, ih]

theorem embedded_access (e : Embedded S) : e.access.embedded = e := by
  obtain ⟨declaring, path, place⟩ := e
  induction path with
  | nil => exact place.embedded_access _
  | cons p rest ih => exact (p.embedded_access _ _).trans (congrArg (inside p) (ih place))

theorem member_access (e : Embedded S) : e.access.member = e.member := by
  obtain ⟨declaring, path, place⟩ := e
  induction path with
  | nil => exact place.member_access
  | cons p rest ih => exact (p.member_access _).trans (ih place)

theorem types_access (e : Embedded S) : e.access.types = e.path.types := by
  obtain ⟨declaring, path, place⟩ := e
  induction path with
  | nil => exact place.lineage_access _
  | cons p rest ih => exact (p.lineage_access _ _).trans (congrArg (_ :: ·) (ih place))

theorem reader?_access (e : Embedded S) : e.access.reader? =
    e.member.type.reduce?.map fun reduce s => reduce (e.place.value (e.path.state s)) := by
  obtain ⟨declaring, path, place⟩ := e
  induction path with
  | nil => exact place.reader?_access
  | cons p rest ih =>
    refine (p.reader?_access _).trans ?_
    have hrest := ih place
    rw [access] at hrest
    rw [hrest, Option.map_map]
    rfl

theorem read?_access (e : Embedded S) (state : S.State) : e.access.read? state = e.read? state := by
  rw [Binding.read?, reader?_access, Option.map_map]
  rfl

theorem read?_eq_none_iff (e : Embedded S) (state : S.State) :
    e.read? state = none ↔ e.member.type = .unreadable := by
  rw [read?, Option.map_eq_none_iff]
  cases e.member.type with
  | readable t => simp [MemberType.reduce?]
  | unreadable => simp [MemberType.reduce?]

end Embedded

theorem BasePath.length_types {S T : StateType} (path : BasePath S T) :
    path.types.length = path.length + 1 := by
  induction path with
  | nil => rfl
  | cons p rest ih => exact congrArg (· + 1) ih

namespace Binding

variable {S : StateType}

/-- The bindings of a state type are the paths with their ends. -/
def embeddedEquiv (S : StateType) : Binding S ≃ Embedded S where
  toFun := embedded
  invFun := Embedded.access
  left_inv := Embedded.access_embedded S.name
  right_inv := Embedded.embedded_access

variable (b : Binding S)

theorem access_embedded : b.embedded.access = b := Embedded.access_embedded S.name b

theorem member_embedded : b.embedded.member = b.member := by
  rw [← Embedded.member_access, access_embedded]

theorem types_embedded : b.embedded.path.types = b.types := by
  rw [← Embedded.types_access, access_embedded]

theorem length_embedded : b.embedded.path.length = b.depth := by
  rw [depth, ← types_embedded, BasePath.length_types, Nat.add_sub_cancel]

theorem read?_embedded (state : S.State) : b.embedded.read? state = b.read? state := by
  rw [← Embedded.read?_access, access_embedded]

end Binding

/-! ### The order of accesses and of a catalog -/

theorem modifyHead_lt_modifyHead {l l' : List Nat} (h : l < l') :
    l.modifyHead (· + 1) < l'.modifyHead (· + 1) := by
  match l, l' with
  | [], [] => exact h
  | [], _ :: _ => exact List.nil_lt_cons _ _
  | _ :: _, [] => exact absurd h (List.not_lt_nil _)
  | a :: l, b :: l' =>
    simp only [List.modifyHead_cons, List.cons_lt_cons_iff, Nat.add_lt_add_iff_right,
      Nat.add_right_cancel_iff] at h ⊢
    exact h

theorem Embedded.zero_cons_lt_modifyHead {S : StateType} (e : Embedded S) (l : List Nat) :
    0 :: l < e.position.modifyHead (· + 1) := by
  obtain ⟨first, rest, h⟩ := List.exists_cons_of_ne_nil
    (List.append_ne_nil_of_right_ne_nil e.path.indices (List.cons_ne_nil e.place.index []))
  rw [position, h, List.modifyHead_cons, List.cons_lt_cons_iff]
  exact .inl (Nat.succ_pos first)

/-- The ways to all members come in the order of their positions. -/
theorem Declarations.pairwise_position_accesses (ds : Declarations) (owner : String) :
    ds.accesses.Pairwise fun a b => (a.embedded owner).position < (b.embedded owner).position := by
  induction ds generalizing owner with
  | nil => exact List.Pairwise.nil
  | member m rest ih =>
    refine List.pairwise_cons.mpr ⟨fun b hb => ?_, List.pairwise_map.mpr ((ih owner).imp ?_)⟩
    · obtain ⟨b, -, rfl⟩ := List.mem_map.mp hb
      rw [Access.embedded, Access.embedded, Embedded.position_next]
      exact (b.embedded owner).zero_cons_lt_modifyHead []
    · intro a b h
      rw [Access.embedded, Access.embedded, Embedded.position_next, Embedded.position_next]
      exact modifyHead_lt_modifyHead h
  | base typeName embedded rest ihe ihr =>
    refine List.pairwise_append.mpr ⟨List.pairwise_map.mpr ((ihe typeName).imp ?_),
      List.pairwise_map.mpr ((ihr owner).imp ?_), fun a ha b hb => ?_⟩
    · intro a b h
      exact List.cons_lt_cons_iff.mpr (.inr ⟨rfl, h⟩)
    · intro a b h
      rw [Access.embedded, Access.embedded, Embedded.position_past, Embedded.position_past]
      exact modifyHead_lt_modifyHead h
    · obtain ⟨a, -, rfl⟩ := List.mem_map.mp ha
      obtain ⟨b, -, rfl⟩ := List.mem_map.mp hb
      rw [Access.embedded, Access.embedded, Embedded.position_past]
      exact (b.embedded owner).zero_cons_lt_modifyHead _

/-- The path is shorter, or as long and the position comes before. -/
def Embedded.Before {S : StateType} (e e' : Embedded S) : Prop :=
  e.path.length < e'.path.length ∨ e.path.length = e'.path.length ∧ e.position < e'.position

namespace Catalog

variable {S : StateType}

/-- Sorting by depth is stable. -/
theorem pairwise_byDepth {r : Binding S → Binding S → Prop} {bs : List (Binding S)}
    (h : bs.Pairwise r) (height : Nat) :
    (byDepth height bs).Pairwise fun a b => a.depth < b.depth ∨ a.depth = b.depth ∧ r a b := by
  have hdepth {depth : Nat} {b : Binding S} (hb : b ∈ bs.filter (·.depth = depth)) :
      b.depth = depth := of_decide_eq_true (List.mem_filter.mp hb).2
  refine List.pairwise_flatMap.mpr ⟨fun depth _ => ?_, List.pairwise_lt_range.imp ?_⟩
  · refine (List.pairwise_iff_forall_sublist.mpr fun {a b} hab => ?_)
    have ha := hdepth (hab.subset List.mem_cons_self)
    have hb := hdepth (hab.subset (List.mem_cons_of_mem a List.mem_cons_self))
    exact .inr ⟨ha.trans hb.symm, List.pairwise_iff_forall_sublist.mp (h.filter _) hab⟩
  · intro depth depth' hlt a ha b hb
    rw [hdepth ha, hdepth hb]
    exact .inl hlt

theorem pairwise_bindings_build (S : StateType) :
    (build S).bindings.Pairwise fun a b => a.embedded.Before b.embedded := by
  have hvisible := (S.declarations.pairwise_position_accesses S.name).filter
    fun a => !a.member.excluded
  refine (pairwise_byDepth hvisible S.declarations.height).imp fun {a b} h => ?_
  rw [Embedded.Before, a.length_embedded, b.length_embedded]
  exact h

end Catalog

/-! ### Excluding members -/

/-- The declarations with some more members excluded. -/
@[reducible] def Declarations.exclude : (ds : Declarations) → (Access ds → Bool) → Declarations
  | .nil, _ => .nil
  | .member m rest, hidden =>
    .member { m with excluded := m.excluded || hidden .here }
      (rest.exclude fun a => hidden (.next a))
  | .base typeName embedded rest, hidden =>
    .base typeName (embedded.exclude fun a => hidden (.inside a))
      (rest.exclude fun a => hidden (.past a))

@[reducible] def StateType.exclude (S : StateType) (hidden : Binding S → Bool) : StateType :=
  ⟨S.name, S.declarations.exclude hidden⟩

/-- The way to the same member after more members are excluded. -/
def Access.kept : {ds : Declarations} → (hidden : Access ds → Bool) → Access ds →
    Access (ds.exclude hidden)
  | .member _ _, _, here => here
  | .member _ _, _, next a => next (a.kept _)
  | .base _ _ _, _, inside a => inside (a.kept _)
  | .base _ _ _, _, past a => past (a.kept _)

/-- A state after more members are excluded, as one before. -/
def Declarations.original : (ds : Declarations) → (hidden : Access ds → Bool) →
    (ds.exclude hidden).State → ds.State
  | .nil, _, s => s
  | .member _ rest, _, s => (s.1, rest.original _ s.2)
  | .base _ embedded rest, _, s => (embedded.original _ s.1, rest.original _ s.2)

theorem Declarations.height_exclude (ds : Declarations) (hidden : Access ds → Bool) :
    (ds.exclude hidden).height = ds.height := by
  induction ds with
  | nil => rfl
  | member m rest ih => exact ih _
  | base typeName embedded rest ihe ihr =>
    rw [exclude, height, height, ihe, ihr]

theorem Declarations.accesses_exclude (ds : Declarations) (hidden : Access ds → Bool) :
    (ds.exclude hidden).accesses = ds.accesses.map (Access.kept hidden) := by
  induction ds with
  | nil => rfl
  | member m rest ih =>
    rw [accesses, accesses, ih, List.map_cons, List.map_map, List.map_map]
    rfl
  | base typeName embedded rest ihe ihr =>
    rw [accesses, accesses, ihe, ihr, List.map_append, List.map_map, List.map_map, List.map_map,
      List.map_map]
    rfl

namespace Access

variable {ds : Declarations} (hidden : Access ds → Bool) (a : Access ds)

theorem member_kept : (a.kept hidden).member =
    { a.member with excluded := a.member.excluded || hidden a } := by
  induction a with
  | here => rfl
  | next a ih => exact ih _
  | inside a ih => exact ih _
  | past a ih => exact ih _

theorem lineage_kept (owner : String) : (a.kept hidden).lineage owner = a.lineage owner := by
  induction a generalizing owner with
  | here => rfl
  | next a ih => exact ih _ _
  | inside a ih => exact congrArg (owner :: ·) (ih _ _)
  | past a ih => exact ih _ _

theorem reader?_kept :
    (a.kept hidden).reader? = a.reader?.map fun read s => read (ds.original hidden s) := by
  induction a with
  | @here m rest =>
    rw [kept, reader?, reader?, Option.map_map]
    rfl
  | next a ih =>
    rw [kept, reader?, ih, reader?, Option.map_map, Option.map_map]
    rfl
  | inside a ih =>
    rw [kept, reader?, ih, reader?, Option.map_map, Option.map_map]
    rfl
  | past a ih =>
    rw [kept, reader?, ih, reader?, Option.map_map, Option.map_map]
    rfl

end Access

namespace Catalog

variable {S : StateType} (hidden : Binding S → Bool)

theorem depth_kept (b : Binding S) :
    Binding.depth (S := S.exclude hidden) (b.kept hidden) = b.depth :=
  congrArg (fun types => types.length - 1) (b.lineage_kept hidden S.name)

theorem bindings_build_exclude : (build (S.exclude hidden)).bindings =
    ((build S).bindings.filter fun b => !hidden b).map (Access.kept hidden) := by
  have hmap (height : Nat) (bs : List (Binding S)) :
      byDepth (S := S.exclude hidden) height (bs.map (Access.kept hidden)) =
        (byDepth height bs).map (Access.kept hidden) := by
    simp [byDepth, List.map_flatMap, List.filter_map, Function.comp_def, depth_kept]
  rw [build, build, filter_byDepth, ← hmap]
  simp only [StateType.exclude, Declarations.height_exclude, Declarations.accesses_exclude,
    List.filter_map, List.filter_filter, Function.comp_def, Access.member_kept, Bool.not_or,
    Bool.and_comm]

/-- A catalog binds the members at the ends of the paths of bases that are not excluded, one for
one.  A binding has the types on its path, and reads its member in the state at the end of the path;
there is no reading exactly if the type of the member has no number.  Shorter paths come first, and
paths of one length in the order of the entries that they go through.  Excluding more members
takes them away, and leaves every other binding as it was, with its readings, in its order. -/
theorem bindings_follow_paths (S : StateType) :
    let bindings := (build S).bindings
    (Function.Bijective (Binding.embedded : Binding S → Embedded S) ∧ bindings.Nodup ∧
      ∀ b, b ∈ bindings ↔ b.embedded.member.excluded = false) ∧
    (∀ b : Binding S, b.member = b.embedded.member ∧ b.types = b.embedded.path.types ∧
      b.depth = b.embedded.path.length ∧ ∀ state, b.read? state = b.embedded.read? state ∧
        (b.read? state = none ↔ b.member.type = .unreadable)) ∧
    bindings.Pairwise (fun a b => a.embedded.Before b.embedded) ∧
    ∀ hidden : Binding S → Bool,
      (build (S.exclude hidden)).bindings =
        (bindings.filter fun b => !hidden b).map (Access.kept hidden) ∧
      ∀ b : Binding S, (b.kept hidden).member =
          { b.member with excluded := b.member.excluded || hidden b } ∧
        Binding.types (S := S.exclude hidden) (b.kept hidden) = b.types ∧
        ∀ state, Binding.read? (S := S.exclude hidden) (b.kept hidden) state =
          b.read? (S.declarations.original hidden state) := by
  intro bindings
  refine ⟨⟨(Binding.embeddedEquiv S).bijective, nodup_bindings_build S, fun b => ?_⟩,
    fun b => ⟨b.member_embedded.symm, b.types_embedded.symm, b.length_embedded.symm,
      fun state => ⟨(b.read?_embedded state).symm, ?_⟩⟩, pairwise_bindings_build S,
    fun hidden => ⟨bindings_build_exclude hidden, fun b => ⟨b.member_kept hidden,
      b.lineage_kept hidden S.name, fun state => ?_⟩⟩⟩
  · rw [b.member_embedded]
    exact mem_bindings_build
  · rw [← b.read?_embedded, ← b.member_embedded]
    exact b.embedded.read?_eq_none_iff state
  · rw [Binding.read?, Binding.read?, b.reader?_kept hidden, Option.map_map]
    rfl

/-- A base that is embedded twice is read in the state of the entry that the path goes through. -/
theorem bindings_follow_paths_rounds :
    let round : Declarations :=
      .member ⟨"round", none, false, "f64", .readable (.number .float64)⟩ .nil
    let second : Embedded contestState :=
      ⟨⟨"Round", round⟩, .cons (.next (.past (.past .here))) .nil, .here⟩
    ∃ b ∈ (build contestState).bindings, b.embedded = second ∧
      second.position = [3, 0] ∧ b.types = ["Contest", "Round"] ∧
      ∀ state : contestState.State, b.read? state = some state.2.2.2.1.1 := by
  intro round second
  obtain ⟨⟨⟨-, hsurjective⟩, -, hmem⟩, hbinding, -⟩ := bindings_follow_paths contestState
  obtain ⟨b, hb⟩ := hsurjective second
  obtain ⟨-, htypes, -, hread⟩ := hbinding b
  refine ⟨b, (hmem b).mpr ?_, hb, rfl, ?_, fun state => ?_⟩
  · rw [hb]
    rfl
  · rw [htypes, hb]
    rfl
  · rw [(hread state).1, hb]
    rfl

end Catalog

end QuestFormula
