import QuestFormula.Formula.Bound
import QuestFormula.Proofs.State.Lookup

/-! Binding the variables of an expression to slots.  `Binds` is what `Catalog.bind` does when it
succeeds, one constructor for each form of expression; the slots so far stay where they are and new
ones follow them, so every slot that an expression uses keeps its binding to the end.  On a state, a
bound expression has the value that the expression has when each variable is read where its name
leads: `Binds.value`.  Binding fails with the error of the first name, from the left, that does not
resolve, and only then. -/

namespace QuestFormula

/-- The slots that the expression reads, from left to right. -/
def BoundExpr.slots : BoundExpr → List Nat
  | .literal _ => []
  | .slot index => [index]
  | .binary _ left right => left.slots ++ right.slots
  | .negate operand => operand.slots

/-- The value of the expression for given values of the slots. -/
def BoundExpr.value (slotValue : Nat → Float) : BoundExpr → Float
  | .literal value => value
  | .slot index => slotValue index
  | .binary op left right => op.apply (left.value slotValue) (right.value slotValue)
  | .negate operand => -operand.value slotValue

/-- The value of an expression on a state: its operators are those of floating-point numbers, and a
variable has the value of the member that its name refers to.  There is none if a name refers to no
member that can be read. -/
def Expr.valueOn? {S : StateType} (c : Catalog S) (formula : String) (state : S.State) :
    Expr → Option Float
  | .literal value => some value
  | .var name _ =>
    match c.lookup formula name with
    | .ok b => b.read? state
    | .error _ => none
  | .binary op left right => do
    let a ← left.valueOn? c formula state
    let b ← right.valueOn? c formula state
    return match op with
      | .add => a + b
      | .sub => a - b
      | .mul => a * b
      | .div => a / b
  | .negate operand => (operand.valueOn? c formula state).map fun value => -value

/-- Each slot has the value, on the state, of the member that it is bound to. -/
def SlotsHold {S : StateType} (bs : List (Binding S)) (state : S.State)
    (slotValue : Nat → Float) : Prop :=
  ∀ slot b, bs[slot]? = some b → b.read? state = some (slotValue slot)

theorem getElem?_mono {α : Type} {xs ys : List α} (h : xs <+: ys) {i : Nat} {a : α}
    (hi : xs[i]? = some a) : ys[i]? = some a := by
  obtain ⟨rest, rfl⟩ := h
  rw [List.getElem?_append_left (List.getElem?_eq_some_iff.mp hi).1, hi]

theorem SlotsHold.mono {S : StateType} {bs bs' : List (Binding S)} {state : S.State}
    {slotValue : Nat → Float} (h : SlotsHold bs' state slotValue) (hp : bs <+: bs') :
    SlotsHold bs state slotValue :=
  fun slot b hb => h slot b (getElem?_mono hp hb)

namespace Catalog

variable {S : StateType} {c : Catalog S} {formula : String}

theorem prefix_allocate (bs : List (Binding S)) (b : Binding S) : bs <+: (allocate bs b).2 := by
  unfold allocate
  split
  · exact List.prefix_rfl
  · exact List.prefix_append bs [b]

theorem getElem?_allocate (bs : List (Binding S)) (b : Binding S) :
    (allocate bs b).2[(allocate bs b).1]? = some b := by
  unfold allocate
  split
  · rename_i slot h
    obtain ⟨hlt, hb, -⟩ := List.idxOf?_eq_some_iff.mp h
    exact List.getElem?_eq_some_iff.mpr ⟨hlt, hb⟩
  · simp

theorem mem_allocate {bs : List (Binding S)} {b b' : Binding S} :
    b' ∈ (allocate bs b).2 ↔ b' ∈ bs ∨ b' = b := by
  unfold allocate
  split
  · rename_i slot h
    obtain ⟨hlt, hb, -⟩ := List.idxOf?_eq_some_iff.mp h
    have hmem : b ∈ bs := hb ▸ List.getElem_mem hlt
    simp +contextual [hmem]
  · simp

/-- Binding an expression succeeds with a bound expression, from the bindings before it to those
after it. -/
inductive Binds (c : Catalog S) (formula : String) :
    List (Binding S) → Expr → BoundExpr → List (Binding S) → Prop
  | literal (bs : List (Binding S)) (value : Float) :
      Binds c formula bs (.literal value) (.literal value) bs
  | var {b : Binding S} {name : String} (bs : List (Binding S)) (position : Nat)
      (found : c.lookup formula name = .ok b) :
      Binds c formula bs (.var name position) (.slot (allocate bs b).1) (allocate bs b).2
  | binary {bs bs' bs'' : List (Binding S)} {l r : Expr} {l' r' : BoundExpr} (op : Operator)
      (left : Binds c formula bs l l' bs') (right : Binds c formula bs' r r' bs'') :
      Binds c formula bs (.binary op l r) (.binary op l' r') bs''
  | negate {bs bs' : List (Binding S)} {e : Expr} {e' : BoundExpr}
      (operand : Binds c formula bs e e' bs') :
      Binds c formula bs (.negate e) (.negate e') bs'

namespace Binds

variable {bs bs' : List (Binding S)} {e : Expr} {e' : BoundExpr}

/-- The slots so far stay where they are. -/
theorem isPrefix (h : c.Binds formula bs e e' bs') : bs <+: bs' := by
  induction h with
  | literal => exact List.prefix_rfl
  | var bs _ _ => exact prefix_allocate bs _
  | binary _ _ _ ihl ihr => exact ihl.trans ihr
  | negate _ ih => exact ih

/-- The expression reads no slot beyond those bound. -/
theorem slot_lt_length (h : c.Binds formula bs e e' bs') {slot : Nat} (hs : slot ∈ e'.slots) :
    slot < bs'.length := by
  induction h with
  | literal => simp [BoundExpr.slots] at hs
  | @var b name bs _ _ =>
    obtain rfl := List.mem_singleton.mp hs
    exact (List.getElem?_eq_some_iff.mp (getElem?_allocate bs b)).1
  | binary _ _ right ihl ihr =>
    rcases List.mem_append.mp hs with hs | hs
    · exact Nat.lt_of_lt_of_le (ihl hs) right.isPrefix.length_le
    · exact ihr hs
  | negate _ ih => exact ih hs

/-- What is bound was bound before, or a name refers to it. -/
theorem mem_or_lookup (h : c.Binds formula bs e e' bs') {b : Binding S} (hb : b ∈ bs') :
    b ∈ bs ∨ ∃ name ∈ e.names, c.lookup formula name = .ok b := by
  induction h with
  | literal => exact .inl hb
  | @var b name bs _ found =>
    rcases mem_allocate.mp hb with hb | rfl
    · exact .inl hb
    · exact .inr ⟨name, by simp [Expr.names], found⟩
  | binary _ _ _ ihl ihr =>
    rcases ihr hb with hb | ⟨name, hn, hf⟩
    · rcases ihl hb with hb | ⟨name, hn, hf⟩
      · exact .inl hb
      · exact .inr ⟨name, List.mem_append_left _ hn, hf⟩
    · exact .inr ⟨name, List.mem_append_right _ hn, hf⟩
  | negate _ ih => exact ih hb

/-- On a state, the bound expression has the value of the expression. -/
theorem value (h : c.Binds formula bs e e' bs') {state : S.State} {slotValue : Nat → Float}
    (hs : SlotsHold bs' state slotValue) :
    e.valueOn? c formula state = some (e'.value slotValue) := by
  induction h with
  | literal => rfl
  | @var b name bs _ found =>
    simp only [Expr.valueOn?, found]
    exact hs _ b (getElem?_allocate bs b)
  | binary op _ right ihl ihr =>
    simp only [Expr.valueOn?, ihl (hs.mono right.isPrefix), ihr hs]
    cases op <;> rfl
  | negate _ ih =>
    simp only [Expr.valueOn?, ih hs]
    rfl

end Binds

/-- The error of a name that does not resolve. -/
def lookupError? (c : Catalog S) (formula name : String) : Option FormulaError :=
  match c.lookup formula name with
  | .ok _ => none
  | .error e => some e

theorem bind_cases (c : Catalog S) (formula : String) (bs : List (Binding S)) (e : Expr) :
    (∃ e' bs', c.bind formula bs e = .ok (e', bs') ∧ c.Binds formula bs e e' bs' ∧
      e.names.findSome? (c.lookupError? formula) = none) ∨
    ∃ error, c.bind formula bs e = .error error ∧
      e.names.findSome? (c.lookupError? formula) = some error := by
  induction e generalizing bs with
  | literal value => exact .inl ⟨_, _, rfl, .literal bs value, rfl⟩
  | var name position =>
    cases h : c.lookup formula name with
    | error error =>
      refine .inr ⟨error, ?_, ?_⟩
      · simp [bind, h]
      · simp [Expr.names, lookupError?, h]
    | ok b =>
      refine .inl ⟨_, _, ?_, .var bs position h, ?_⟩
      · simp [bind, h]
      · simp [Expr.names, lookupError?, h]
  | binary op l r ihl ihr =>
    rcases ihl bs with ⟨l', bs', hl, hbl, hnl⟩ | ⟨error, hl, hel⟩
    · rcases ihr bs' with ⟨r', bs'', hr, hbr, hnr⟩ | ⟨error, hr, her⟩
      · exact .inl ⟨_, _, by simp [bind, hl, hr], .binary op hbl hbr,
          by simp only [Expr.names, List.findSome?_append, hnl, hnr, Option.none_or]⟩
      · exact .inr ⟨error, by simp [bind, hl, hr],
          by simp only [Expr.names, List.findSome?_append, hnl, her, Option.none_or]⟩
    · exact .inr ⟨error, by simp [bind, hl],
        by simp only [Expr.names, List.findSome?_append, hel, Option.some_or]⟩
  | negate e ih =>
    rcases ih bs with ⟨e', bs', h, hb, hn⟩ | ⟨error, h, he⟩
    · exact .inl ⟨_, _, by simp [bind, h], .negate hb, hn⟩
    · exact .inr ⟨error, by simp [bind, h], he⟩

theorem resolve_eq_ok {e : Expr} {bound : BoundFormula S}
    (h : c.resolve formula e = .ok bound) :
    bound.formula = formula ∧ c.Binds formula [] e bound.expr bound.bindings := by
  rw [resolve] at h
  rcases c.bind_cases formula [] e with ⟨e', bs', hb, hbinds, -⟩ | ⟨error, hb, -⟩
  · rw [hb] at h
    cases h
    exact ⟨rfl, hbinds⟩
  · rw [hb] at h
    cases h

/-- Resolving fails exactly with the first error of a name, from the left. -/
theorem resolve_eq_error_iff {e : Expr} {error : FormulaError} :
    c.resolve formula e = .error error ↔
      e.names.findSome? (c.lookupError? formula) = some error := by
  rw [resolve]
  rcases c.bind_cases formula [] e with ⟨e', bs', hb, -, hn⟩ | ⟨error', hb, hn⟩
  · simp [hb, hn]
  · simp [hb, hn]

end Catalog

end QuestFormula
