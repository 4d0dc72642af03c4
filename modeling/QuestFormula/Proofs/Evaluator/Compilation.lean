import QuestFormula.Factory.Basic
import QuestFormula.Proofs.Formula.Bound
import QuestFormula.Proofs.Formula.Parser

/-! A compiled evaluator computes what its formula says.  Code, whatever compiling folds into
constants or single instructions, has the value of its bound expression on every frame, and reads
the same slots; a frame, in place or in an array, has the values that it was made from; and every
binding that a formula resolves to has a reader.  So on every state the evaluator's result is the
value of the parsed expression with its variables read where their names lead, and the reward is
built from it. -/

namespace QuestFormula

/-! ### Code -/

namespace Code

/-- The slots that the code reads, from left to right. -/
def slots : Code → List Nat
  | const _ => []
  | slot index => [index]
  | slotSlot _ left right => [left, right]
  | slotConst _ left _ => [left]
  | constSlot _ _ right => [right]
  | binary _ left right => left.slots ++ right.slots
  | negate operand => operand.slots

/-- The three special forms and the folded one compute what the general one does. -/
theorem run_combine (frame : Frame) (op : Operator) (l r : Code) :
    (combine op l r).1.run frame = op.apply (l.run frame) (r.run frame) := by
  unfold combine
  split <;> rfl

theorem slots_combine (op : Operator) (l r : Code) :
    (combine op l r).1.slots = l.slots ++ r.slots := by
  unfold combine
  split <;> rfl

theorem run_negated (frame : Frame) (c : Code) : (negated c).1.run frame = -c.run frame := by
  unfold negated
  split <;> rfl

theorem slots_negated (c : Code) : (negated c).1.slots = c.slots := by
  unfold negated
  split <;> rfl

theorem run_ofExpr (frame : Frame) (e : BoundExpr) :
    (ofExpr e).1.run frame = e.value frame.get := by
  induction e with
  | literal | slot => rfl
  | binary op l r ihl ihr => simp only [ofExpr, run_combine, ihl, ihr, BoundExpr.value]
  | negate e ih => simp only [ofExpr, run_negated, ih, BoundExpr.value]

theorem slots_ofExpr (e : BoundExpr) : (ofExpr e).1.slots = e.slots := by
  induction e with
  | literal | slot => rfl
  | binary op l r ihl ihr => simp only [ofExpr, slots_combine, ihl, ihr, BoundExpr.slots]
  | negate e ih => simp only [ofExpr, slots_negated, ih, BoundExpr.slots]

end Code

/-! ### Frames -/

/-- The frame of values, the cells after them left at zero.  It is the one that `Frame.read` makes of
what it reads: `Frame.read_eq`. -/
def Frame.ofValues (values : List Float) : Frame :=
  if values.length ≤ inlineSlots then
    small (Vector.ofFn fun i => (values[i.val]?).getD 0) values.length
  else large values.toArray

/-- A frame has the values that it was made from, and no slot after them. -/
theorem Frame.get?_ofValues (values : List Float) (slot : Nat) :
    (Frame.ofValues values).get? slot = values[slot]? := by
  unfold ofValues
  split
  · rename_i hcount
    simp only [get?]
    split
    · rename_i hslot
      have hcell : slot < inlineSlots := Nat.lt_of_lt_of_le hslot hcount
      simp [hcell, hslot]
    · rename_i hslot
      exact (List.getElem?_eq_none (Nat.not_lt.mp hslot)).symm
  · simp [get?]

/-! ### Readers -/

theorem Traced.ext {β α : Type} {x y : Traced β α} (hv : x.value = y.value)
    (hr : x.reads = y.reads) : x = y := by
  cases x
  cases y
  simp_all

instance {β : Type} : LawfulMonad (Traced β) :=
  LawfulMonad.mk' (Traced β)
    (fun x => Traced.ext rfl (List.append_nil x.reads))
    (fun _ _ => Traced.ext rfl (List.nil_append _))
    (fun _ _ _ => Traced.ext rfl (List.append_assoc _ _ _))

theorem Traced.value_mapM {α β γ : Type} (f : α → Traced β γ) (xs : List α) :
    (xs.mapM f).value = xs.map fun x => (f x).value := by
  induction xs with
  | nil => rfl
  | cons x xs ih =>
    rw [List.mapM_cons, List.map_cons, ← ih]
    rfl

theorem Traced.reads_mapM {α β γ : Type} (f : α → Traced β γ) (xs : List α) :
    (xs.mapM f).reads = xs.flatMap fun x => (f x).reads := by
  induction xs with
  | nil => rfl
  | cons x xs ih =>
    rw [List.mapM_cons, List.flatMap_cons, ← ih]
    exact congrArg _ (List.append_nil _)

section Frame

variable {S : StateType} (readers : List (Reader S)) (state : S.State)

/-- Filling asks each reader once, and leaves the cells before and after as they were. -/
theorem Frame.fill_eq (slot : Nat) (cells : Vector Float inlineSlots)
    (h : slot + readers.length ≤ inlineSlots) :
    (fill state slot cells readers).reads = readers.map Reader.binding ∧
    ∀ i (hi : i < inlineSlots), (fill state slot cells readers).value[i] =
      if slot ≤ i then ((readers[i - slot]?).map (Reader.read · state)).getD cells[i]
      else cells[i] := by
  induction readers generalizing slot cells with
  | nil => exact ⟨rfl, fun i hi => by simp [fill, pure]⟩
  | cons r readers ih =>
    rw [List.length_cons] at h
    have hslot : slot < inlineSlots := by omega
    obtain ⟨hreads, hcells⟩ := ih (slot + 1) (cells.set slot (r.read state) hslot) (by omega)
    rw [fill, dif_pos hslot]
    refine ⟨congrArg (r.binding :: ·) hreads, fun i hi => (hcells i hi).trans ?_⟩
    -- a cell is one that a later reader fills, the one filled here, or one before
    rcases Nat.lt_trichotomy slot i with hlt | rfl | hlt
    · have hk : i - slot = i - (slot + 1) + 1 := by omega
      rw [if_pos (by omega), if_pos hlt.le, hk, List.getElem?_cons_succ,
        Vector.getElem_set_ne _ hi hlt.ne]
    · simp
    · rw [if_neg (by omega), if_neg (by omega), Vector.getElem_set_ne _ hi hlt.ne']

/-- In cells or in an array, the frame is that of the values read. -/
theorem Frame.read_eq : Frame.read readers state =
    ⟨.ofValues (readers.map (Reader.read · state)), readers.map Reader.binding⟩ := by
  unfold read ofValues
  rw [List.length_map]
  split
  · rename_i hcount
    obtain ⟨hreads, hcells⟩ := fill_eq readers state 0 (.replicate inlineSlots 0) (by omega)
    refine Traced.ext (congrArg (small · readers.length) (Vector.ext fun i hi => ?_))
      ((List.append_nil _).trans hreads)
    refine (hcells i hi).trans ?_
    simp
  · refine Traced.ext (congrArg (fun values => large values.toArray) (Traced.value_mapM _ _)) ?_
    refine (List.append_nil _).trans ((Traced.reads_mapM _ _).trans ?_)
    exact List.flatMap_pure_eq_map _ _

end Frame

theorem Evaluator.trace_eq {S : StateType} (e : Evaluator S) (state : S.State) :
    e.trace state = ⟨e.code.run (.ofValues (e.readers.map (Reader.read · state))),
      e.readers.map Reader.binding⟩ := by
  rw [trace, Frame.read_eq]
  exact Traced.ext rfl (List.append_nil _)

theorem Evaluator.evaluateRaw_eq {S : StateType} (e : Evaluator S) (state : S.State) :
    e.evaluateRaw state =
      e.code.run (Frame.ofValues (e.readers.map (Reader.read · state))) := by
  rw [evaluateRaw, trace_eq]

/-- The readers read the bindings, in order. -/
def AreReadersOf {S : StateType} (readers : List (Reader S)) (bs : List (Binding S)) : Prop :=
  readers.map Reader.binding = bs ∧ ∀ r ∈ readers, r.binding.reader? = some r.read

/-- Bindings that can be read have readers. -/
theorem exists_readersOf {S : StateType} (formula : String) (bs : List (Binding S))
    (h : ∀ b ∈ bs, b.member.type ≠ .unreadable) :
    ∃ readers, readersOf formula bs = .ok readers ∧ AreReadersOf readers bs := by
  induction bs with
  | nil => exact ⟨[], rfl, rfl, by simp⟩
  | cons b bs ih =>
    obtain ⟨readers, hr, hb, hread⟩ := ih fun b' hb' => h b' (List.mem_cons_of_mem _ hb')
    cases hreader : b.reader? with
    | none => exact absurd ((Access.reader?_eq_none_iff b).mp hreader) (h b List.mem_cons_self)
    | some read =>
      refine ⟨⟨b, read⟩ :: readers, ?_, by simp [hb], List.forall_mem_cons.mpr ⟨hreader, hread⟩⟩
      simp [readersOf, hreader, hr, Except.map]

/-- The frame of what readers read holds the slots of their bindings. -/
theorem AreReadersOf.slotsHold {S : StateType} {readers : List (Reader S)} {bs : List (Binding S)}
    (h : AreReadersOf readers bs) (state : S.State) :
    SlotsHold bs state (Frame.ofValues (readers.map (Reader.read · state))).get := by
  obtain ⟨rfl, hread⟩ := h
  intro slot b hslot
  rw [List.getElem?_map] at hslot
  obtain ⟨r, hr, rfl⟩ := Option.map_eq_some_iff.mp hslot
  rw [Binding.read?, hread r (List.mem_of_getElem? hr)]
  simp [Frame.get, Frame.get?_ofValues, hr]

/-! ### Compilation -/

/-- What a formula resolves to can be read. -/
theorem Catalog.exists_readersOf_resolve {S : StateType} {c : Catalog S} {formula : String}
    {e : Expr} {bound : BoundFormula S} (h : c.resolve formula e = .ok bound) :
    ∃ readers, readersOf bound.formula bound.bindings = .ok readers ∧
      AreReadersOf readers bound.bindings := by
  refine exists_readersOf _ _ fun b hb => ?_
  rcases (resolve_eq_ok h).2.mem_or_lookup hb with hb | ⟨name, -, hfound⟩
  · simp at hb
  · exact (lookup_eq_ok_iff.mp hfound).2

/-- Compiling what a formula resolves to fails only where the reward type has no one constructor. -/
theorem Catalog.exists_compile {S : StateType} {c : Catalog S} {formula : String} {e : Expr}
    {bound : BoundFormula S} (h : c.resolve formula e = .ok bound) (R : RewardType) :
    ∃ readers, AreReadersOf readers bound.bindings ∧
      bound.compile R = R.construction.map fun construction =>
        (⟨formula, readers, (Code.ofExpr bound.expr).1, construction⟩,
          (Code.ofExpr bound.expr).2) := by
  obtain ⟨readers, hreaders, hread⟩ := exists_readersOf_resolve h
  refine ⟨readers, hread, ?_⟩
  rw [BoundFormula.compile, hreaders, (resolve_eq_ok h).1]
  cases R.construction <;> rfl

theorem RewardType.construction_eq_ok_iff {R : RewardType} {k : Construction} :
    R.construction = .ok k ↔ ∃ parameter, R.constructors = [parameter] ∧ k = ⟨R, parameter⟩ := by
  unfold construction
  split <;> simp_all [eq_comm]

namespace Catalog

variable {S : StateType} {c : Catalog S} {formula : String} {e : Expr} {bound : BoundFormula S}
  {R : RewardType}

theorem compile_eq_ok (h : c.resolve formula e = .ok bound) {made : Evaluator S}
    {savings : Code.Savings} (hmade : bound.compile R = .ok (made, savings)) :
    ∃ readers parameter, AreReadersOf readers bound.bindings ∧ R.constructors = [parameter] ∧
      made = ⟨formula, readers, (Code.ofExpr bound.expr).1, ⟨R, parameter⟩⟩ := by
  obtain ⟨readers, hread, hcompile⟩ := exists_compile h R
  rw [hmade] at hcompile
  cases hk : R.construction with
  | error error =>
    rw [hk] at hcompile
    cases hcompile
  | ok k =>
    rw [hk] at hcompile
    cases hcompile
    obtain ⟨parameter, hparameter, rfl⟩ := RewardType.construction_eq_ok_iff.mp hk
    exact ⟨readers, parameter, hread, hparameter, rfl⟩

theorem compile_of_constructors (h : c.resolve formula e = .ok bound) {parameter : ParameterType}
    (hR : R.constructors = [parameter]) :
    ∃ made savings, bound.compile R = .ok (made, savings) := by
  obtain ⟨readers, -, hcompile⟩ := exists_compile h R
  rw [RewardType.construction_eq_ok_iff.mpr ⟨parameter, hR, rfl⟩] at hcompile
  exact ⟨_, _, hcompile⟩

end Catalog

theorem Factory.compileWith_eq_ok_iff {S : StateType} {c : Catalog S} {R : RewardType}
    {formula : String} {made : Evaluator S × Code.Savings} :
    compileWith c R formula = .ok made ↔ ∃ e bound, parse formula = .ok e ∧
      c.resolve formula e = .ok bound ∧ bound.compile R = .ok made := by
  rw [compileWith]
  cases parse formula with
  | error error => simp [bind, Except.bind]
  | ok e =>
    cases hr : c.resolve formula e with
    | error error => simp [bind, Except.bind, hr]
    | ok bound => simp [bind, Except.bind, hr]

/-- Compiling fails where the formula does not parse, or else where it does not resolve, or else
where the reward type has not one constructor; and otherwise gives an evaluator of its code. -/
theorem Factory.compileWith_cases {S : StateType} (c : Catalog S) (R : RewardType)
    (formula : String) :
    (∃ error, parse formula = .error error ∧ compileWith c R formula = .error error) ∨
    ∃ e, parse formula = .ok e ∧
      ((∃ error, c.resolve formula e = .error error ∧ compileWith c R formula = .error error) ∨
      ∃ bound readers, c.resolve formula e = .ok bound ∧ AreReadersOf readers bound.bindings ∧
        compileWith c R formula = R.construction.map fun construction =>
          (⟨formula, readers, (Code.ofExpr bound.expr).1, construction⟩,
            (Code.ofExpr bound.expr).2)) := by
  cases hp : parse formula with
  | error error =>
    refine .inl ⟨error, rfl, ?_⟩
    rw [compileWith, hp]
    rfl
  | ok e =>
    refine .inr ⟨e, rfl, ?_⟩
    cases hr : c.resolve formula e with
    | error error =>
      refine .inl ⟨error, rfl, ?_⟩
      rw [compileWith, hp]
      show c.resolve formula e >>= _ = _
      rw [hr]
      rfl
    | ok bound =>
      obtain ⟨readers, hread, hcompile⟩ := Catalog.exists_compile hr R
      refine .inr ⟨bound, readers, rfl, hread, ?_⟩
      rw [compileWith, hp]
      show c.resolve formula e >>= _ = _
      rw [hr]
      exact hcompile

/-- An evaluator has the value of its formula on every state, builds the reward from it by the one
constructor of the reward type, and reads no slot that its frame does not have; and nothing that a
formula resolves to is without a reader. -/
theorem Factory.compileWith_evaluates (S : StateType) (formula : String) :
    (∀ (R : RewardType) (e : Evaluator S) (savings : Code.Savings),
      compileWith (Catalog.build S) R formula = .ok (e, savings) →
      ∃ expr parameter, parse formula = .ok expr ∧ R.constructors = [parameter] ∧
        (∀ state, expr.valueOn? (Catalog.build S) formula state = some (e.evaluateRaw state) ∧
          e.evaluate state = ⟨R, parameter, parameter.ofFloat (e.evaluateRaw state)⟩) ∧
        ∀ slot ∈ e.code.slots, ∃ r, e.readers[slot]? = some r ∧ ∀ state,
          (Frame.ofValues (e.readers.map (Reader.read · state))).get? slot =
            some (r.read state)) ∧
    ∀ expr bound, (Catalog.build S).resolve formula expr = .ok bound →
      ∃ readers, readersOf bound.formula bound.bindings = .ok readers := by
  refine ⟨fun R e savings h => ?_, fun expr bound h => ?_⟩
  · rcases compileWith_cases (Catalog.build S) R formula with ⟨error, -, hc⟩ |
      ⟨expr, hparse, ⟨error, -, hc⟩ | ⟨bound, readers, hresolve, hread, hc⟩⟩
    · rw [h] at hc
      cases hc
    · rw [h] at hc
      cases hc
    · rw [h] at hc
      cases hk : R.construction with
      | error error =>
        rw [hk] at hc
        cases hc
      | ok k =>
        rw [hk] at hc
        obtain ⟨parameter, hparameter, rfl⟩ := RewardType.construction_eq_ok_iff.mp hk
        cases hc
        have hbinds := (Catalog.resolve_eq_ok hresolve).2
        refine ⟨expr, parameter, hparse, hparameter, fun state => ⟨?_, rfl⟩, fun slot hslot => ?_⟩
        · rw [Evaluator.evaluateRaw_eq, Code.run_ofExpr]
          exact hbinds.value (hread.slotsHold state)
        · rw [Code.slots_ofExpr] at hslot
          have hlt := hbinds.slot_lt_length hslot
          rw [← hread.1, List.length_map] at hlt
          refine ⟨readers[slot], List.getElem?_eq_getElem hlt, fun state => ?_⟩
          simp [Frame.get?_ofValues, hlt]
  · obtain ⟨readers, hreaders, -⟩ := Catalog.exists_readersOf_resolve h
    exact ⟨readers, hreaders⟩

/-- One member under two names, next to another. -/
theorem compileWith_evaluates_ratio :
    ∃ e savings, Factory.compileWith (Catalog.build huntState) ⟨"Title", "Title", [.text], .literal⟩
        "(bonus - level) / -b" = .ok (e, savings) ∧
      ∀ state, Expr.valueOn? (Catalog.build huntState) "(bonus - level) / -b" state
          (.binary .div (.binary .sub (.var "bonus" 1) (.var "level" 9)) (.negate (.var "b" 19))) =
        some (e.evaluateRaw state) := by
  have hparse : parse "(bonus - level) / -b" = .ok (.binary .div
      (.binary .sub (.var "bonus" 1) (.var "level" 9)) (.negate (.var "b" 19))) := by cbv
  have hok : (Factory.compileWith (Catalog.build huntState) ⟨"Title", "Title", [.text], .literal⟩
      "(bonus - level) / -b").isOk = true := by cbv
  cases hc : Factory.compileWith (Catalog.build huntState) ⟨"Title", "Title", [.text], .literal⟩
      "(bonus - level) / -b" with
  | error error =>
    rw [hc] at hok
    cases hok
  | ok result =>
    obtain ⟨e, savings⟩ := result
    obtain ⟨expr, _, hexpr, -, hvalue, -⟩ :=
      (Factory.compileWith_evaluates huntState _).1 _ e savings hc
    obtain rfl := Except.ok.inj (hparse.symm.trans hexpr)
    exact ⟨e, savings, rfl, fun state => (hvalue state).1⟩

end QuestFormula
