import QuestFormula.Proofs.Evaluator.Compilation

/-! Formulas on a state type that embeds another one.  A place of a base among declarations takes
every state to the state of the base and every access into the base to an access from the outside,
which has the same member and one more type on its way.  So the order by depth, shadowing, slots and
readers of the base are found again in the embedding type for every name to which no other member
answers, and an equation for each stage says how: candidates, lookup, binding, readers, compiling.
`inherits_formula` puts them together. -/

namespace QuestFormula

/-- A place where declarations embed a base. -/
inductive BasePlace (B : StateType) : Declarations → Type where
  | here {rest : Declarations} : BasePlace B (.base B.name B.declarations rest)
  | next {m : Member} {rest : Declarations} (p : BasePlace B rest) : BasePlace B (.member m rest)
  | past {typeName : String} {embedded rest : Declarations} (p : BasePlace B rest) :
      BasePlace B (.base typeName embedded rest)

/-- The error as it is for another state type. -/
def FormulaError.forState (state : String) : FormulaError → FormulaError
  | .unknownVariable formula name _ => .unknownVariable formula name state
  | error => error

namespace BasePlace

variable {B : StateType}

/-- The state of the base in a state. -/
def state : {ds : Declarations} → BasePlace B ds → ds.State → B.State
  | _, here, s => s.1
  | _, next p, s | _, past p, s => p.state s.2

/-- The way into the base and on to a member of it. -/
def access : {ds : Declarations} → BasePlace B ds → Access B.declarations → Access ds
  | _, here, a => .inside a
  | _, next p, a => .next (p.access a)
  | _, past p, a => .past (p.access a)

section Access

variable {ds : Declarations} (p : BasePlace B ds)

@[simp] theorem member_access (a : Access B.declarations) : (p.access a).member = a.member := by
  induction p with
  | here => rfl
  | next p ih => exact ih
  | past p ih => exact ih

theorem lineage_access (owner : String) (a : Access B.declarations) :
    (p.access a).lineage owner = owner :: a.lineage B.name := by
  induction p with
  | here => rfl
  | next p ih => exact ih
  | past p ih => exact ih

theorem reader?_access (a : Access B.declarations) :
    (p.access a).reader? = a.reader?.map fun read s => read (p.state s) := by
  induction p with
  | here => rfl
  | next p ih =>
    rw [access, Access.reader?, ih, Option.map_map]
    rfl
  | past p ih =>
    rw [access, Access.reader?, ih, Option.map_map]
    rfl

theorem access_injective : Function.Injective p.access := by
  intro a b h
  induction p with
  | here => exact Access.inside.inj h
  | next p ih => exact ih (Access.next.inj h)
  | past p ih => exact ih (Access.past.inj h)

include p in
theorem height_lt : B.declarations.height < ds.height := by
  induction p with
  | here => exact Nat.lt_of_succ_le (Nat.le_max_left _ _)
  | next p ih => exact ih
  | past p ih => exact Nat.lt_of_lt_of_le ih (Nat.le_max_right _ _)

/-- Accesses among which all that are wanted go into the base, in order. -/
theorem filter_accesses {wanted : Access ds → Bool}
    (h : ∀ a, wanted a = true → a ∈ Set.range p.access) :
    ds.accesses.filter wanted =
      (B.declarations.accesses.filter (wanted ∘ p.access)).map p.access := by
  induction p with
  | here =>
    have hrest : ∀ a, ¬(wanted ∘ Access.past) a = true := fun a ha => by
      obtain ⟨b, hb⟩ := h _ ha
      cases hb
    rw [Declarations.accesses, List.filter_append, List.filter_map, List.filter_map,
      List.filter_eq_nil_iff.mpr fun a _ => hrest a, List.map_nil]
    exact List.append_nil _
  | next p ih =>
    have hhere : ¬wanted .here = true := fun ha => by
      obtain ⟨b, hb⟩ := h _ ha
      cases hb
    have hrest : ∀ a, (wanted ∘ Access.next) a = true → a ∈ Set.range p.access := fun a ha => by
      obtain ⟨b, hb⟩ := h _ ha
      exact ⟨b, Access.next.inj hb⟩
    rw [Declarations.accesses, List.filter_cons_of_neg hhere, List.filter_map, ih hrest,
      List.map_map]
    rfl
  | past p ih =>
    have hinside : ∀ a, ¬(wanted ∘ Access.inside) a = true := fun a ha => by
      obtain ⟨b, hb⟩ := h _ ha
      cases hb
    have hrest : ∀ a, (wanted ∘ Access.past) a = true → a ∈ Set.range p.access := fun a ha => by
      obtain ⟨b, hb⟩ := h _ ha
      exact ⟨b, Access.past.inj hb⟩
    rw [Declarations.accesses, List.filter_append, List.filter_map, List.filter_map,
      List.filter_eq_nil_iff.mpr fun a _ => hinside a, List.map_nil, List.nil_append, ih hrest,
      List.map_map]
    rfl

end Access

/-! ### Bindings and catalogs -/

variable {D : StateType} (p : BasePlace B D.declarations)

theorem types_access (b : Binding B) :
    Binding.types (S := D) (p.access b) = D.name :: b.types :=
  p.lineage_access D.name b

theorem depth_access (b : Binding B) : Binding.depth (S := D) (p.access b) = b.depth + 1 := by
  have hpos : 0 < b.types.length := List.length_pos_iff.mpr (Access.lineage_ne_nil B.name b)
  rw [Binding.depth, Binding.depth, types_access, List.length_cons]
  omega

theorem isMoreDerivedThan_access (a b : Binding B) :
    Binding.isMoreDerivedThan (S := D) (p.access a) (p.access b) = a.isMoreDerivedThan b := by
  simp [Binding.isMoreDerivedThan, types_access]

theorem qualifiedName_access (b : Binding B) :
    Binding.qualifiedName (S := D) (p.access b) = b.qualifiedName := by
  obtain ⟨owner, rest, htypes⟩ := List.exists_cons_of_ne_nil (Access.lineage_ne_nil B.name b)
  have htypes : b.types = owner :: rest := htypes
  simp only [Binding.qualifiedName, Binding.declaringType, types_access, htypes, member_access,
    List.getLast?_cons_cons]
  rw [List.getLast?_cons, Option.getD_some, Option.getD_some]

/-- No member answers to the name but those of the base at the place. -/
def Alone (name : String) : Prop :=
  ∀ b : Binding D, b ∉ Set.range p.access → ¬b.Answers name

theorem alone_iff {name : String} :
    p.Alone name ↔
      ∀ b ∈ (Catalog.build D).candidates name, b ∈ B.declarations.accesses.map p.access := by
  constructor
  · intro h b hb
    by_contra hout
    refine h b (fun hrange => hout ?_) (Catalog.mem_candidates_build.mp hb)
    obtain ⟨a, ha⟩ := hrange
    exact List.mem_map.mpr ⟨a, Declarations.mem_accesses a, ha⟩
  · intro h b hout hb
    obtain ⟨a, -, ha⟩ := List.mem_map.mp (h b (Catalog.mem_candidates_build.mpr hb))
    exact hout ⟨a, ha⟩

theorem byDepth_map_access (bs : List (Binding B)) :
    Catalog.byDepth (S := D) D.declarations.height (bs.map p.access) =
      (Catalog.byDepth B.declarations.height bs).map p.access := by
  have hfilter (depth : Nat) :
      (bs.map p.access).filter (fun b => Binding.depth (S := D) b = depth) =
        (bs.filter fun b => b.depth + 1 = depth).map p.access := by
    simp [List.filter_map, Function.comp_def, depth_access]
  -- Nothing of the base is at depth 0, and nothing is deeper than the base is high.
  obtain ⟨more, hmore⟩ := Nat.exists_eq_add_of_lt p.height_lt
  have hdeep (more : Nat) : bs.filter (fun b => b.depth = B.declarations.height + 1 + more) = [] :=
    List.filter_eq_nil_iff.mpr fun b _ => by
      have := b.depth_le_height
      simp only [decide_eq_true_eq]
      omega
  rw [Catalog.byDepth, Catalog.byDepth, List.map_flatMap, List.range_succ_eq_map, hmore,
    show B.declarations.height + more + 1 = B.declarations.height + 1 + more by omega,
    List.range_add]
  simp [hfilter, List.flatMap_map, hdeep]

/-- The candidates of a name to which only members of the base answer are its candidates in the
base, in the same order. -/
theorem candidates_of_alone {name : String} (h : p.Alone name) :
    (Catalog.build D).candidates name = ((Catalog.build B).candidates name).map p.access := by
  have hrange : ∀ a : Binding D, (decide (name ∈ a.member.names) && !a.member.excluded) = true →
      a ∈ Set.range p.access := fun a ha => by
    by_contra hout
    refine h a hout ⟨?_, ?_⟩
    · simpa using (Bool.and_eq_true_iff.mp ha).2
    · exact Member.mem_names.mp (of_decide_eq_true (Bool.and_eq_true_iff.mp ha).1)
  rw [Catalog.candidates_build, Catalog.candidates_build, Catalog.build, Catalog.build,
    Catalog.filter_byDepth, Catalog.filter_byDepth, List.filter_filter, List.filter_filter,
    p.filter_accesses hrange, byDepth_map_access]
  simp [Function.comp_def]

theorem leaders_of_alone {name : String} (h : p.Alone name) :
    (Catalog.build D).leaders name = ((Catalog.build B).leaders name).map p.access := by
  rw [Catalog.leaders, Catalog.leaders, p.candidates_of_alone h, List.filter_map]
  simp [Function.comp_def, List.any_map, isMoreDerivedThan_access]

/-- The name leads to the same member, or fails in the same way. -/
theorem lookup_of_alone {name : String} (h : p.Alone name) (formula : String) :
    (Catalog.build D).lookup formula name =
      (((Catalog.build B).lookup formula name).map p.access).mapError (.forState D.name) := by
  have hleaders := p.leaders_of_alone h
  match hl : (Catalog.build B).leaders name with
  | [] =>
    rw [hl] at hleaders
    rw [Catalog.lookup_of_leaders_eq_nil hl, Catalog.lookup_of_leaders_eq_nil hleaders]
    rfl
  | [w] =>
    rw [hl] at hleaders
    rw [Catalog.lookup_of_leaders_eq_singleton hl, Catalog.lookup_of_leaders_eq_singleton hleaders,
      member_access]
    split
    · rfl
    · rfl
  | a :: b :: rest =>
    rw [hl] at hleaders
    have htwo : 2 ≤ ((Catalog.build B).leaders name).length := by simp [hl]
    have htwo' : 2 ≤ ((Catalog.build D).leaders name).length := by simp [hleaders]
    rw [Catalog.lookup_of_two_le_leaders htwo, Catalog.lookup_of_two_le_leaders htwo', hl, hleaders,
      List.map_map]
    simp [Except.map, Except.mapError, FormulaError.forState, Function.comp_def,
      qualifiedName_access]

/-! ### Formulas -/

theorem allocate_map_access (bs : List (Binding B)) (b : Binding B) :
    Catalog.allocate (S := D) (bs.map p.access) (p.access b) =
      ((Catalog.allocate bs b).1, (Catalog.allocate bs b).2.map p.access) := by
  have hidx : (bs.map p.access).idxOf? (p.access b) = bs.idxOf? b := by
    rw [List.idxOf?, List.findIdx?_map, List.idxOf?]
    congr 1
    funext a
    simp [p.access_injective.eq_iff]
  rw [Catalog.allocate, Catalog.allocate, hidx]
  cases bs.idxOf? b with
  | none => simp
  | some slot => rfl

theorem bind_build (formula : String) {e : Expr} (h : ∀ name ∈ e.names, p.Alone name)
    (bs : List (Binding B)) :
    (Catalog.build D).bind formula (bs.map p.access) e =
      (((Catalog.build B).bind formula bs e).map fun r => (r.1, r.2.map p.access)).mapError
        (.forState D.name) := by
  induction e generalizing bs with
  | literal value => rfl
  | var name position =>
    rw [Catalog.bind, Catalog.bind, p.lookup_of_alone (h name List.mem_cons_self)]
    cases (Catalog.build B).lookup formula name with
    | error error => rfl
    | ok b =>
      simp only [Except.map, Except.mapError, allocate_map_access]
  | binary op l r ihl ihr =>
    have hl := ihl (fun name hn => h name (List.mem_append_left _ hn)) bs
    rw [Catalog.bind, Catalog.bind, hl]
    cases (Catalog.build B).bind formula bs l with
    | error error => rfl
    | ok left =>
      have hr := ihr (fun name hn => h name (List.mem_append_right _ hn)) left.2
      simp only [Except.map, Except.mapError] at hr ⊢
      rw [hr]
      cases (Catalog.build B).bind formula left.2 r with
      | error error => rfl
      | ok right => rfl
  | negate e ih =>
    rw [Catalog.bind, Catalog.bind, ih h bs]
    cases (Catalog.build B).bind formula bs e with
    | error error => rfl
    | ok operand => rfl

/-- A formula bound in the base, bound in the type that embeds it. -/
def boundFormula (bound : BoundFormula B) : BoundFormula D :=
  ⟨bound.formula, bound.expr, bound.bindings.map p.access⟩

theorem resolve_build (formula : String) {e : Expr} (h : ∀ name ∈ e.names, p.Alone name) :
    (Catalog.build D).resolve formula e =
      (((Catalog.build B).resolve formula e).map p.boundFormula).mapError (.forState D.name) := by
  have hbind := p.bind_build formula h []
  rw [List.map_nil] at hbind
  rw [Catalog.resolve, Catalog.resolve, hbind]
  cases (Catalog.build B).bind formula [] e with
  | error error => rfl
  | ok result => rfl

/-- A reader of the base, which reads the state of the base. -/
def reader (r : Reader B) : Reader D := ⟨p.access r.binding, fun s => r.read (p.state s)⟩

theorem readersOf_map_access (formula : String) (bs : List (Binding B)) :
    readersOf (S := D) formula (bs.map p.access) =
      (readersOf formula bs).map (List.map p.reader) := by
  induction bs with
  | nil => rfl
  | cons b bs ih =>
    rw [List.map_cons, readersOf, readersOf, reader?_access, ih, member_access]
    cases b.reader? with
    | none => rfl
    | some read =>
      cases readersOf formula bs with
      | error error => rfl
      | ok readers => rfl

/-- An evaluator of the base, which evaluates on the state of the base. -/
def evaluator (e : Evaluator B) : Evaluator D :=
  ⟨e.formula, e.readers.map p.reader, e.code, e.construction⟩

theorem evaluateRaw_evaluator (e : Evaluator B) (s : D.State) :
    (p.evaluator e).evaluateRaw s = e.evaluateRaw (p.state s) := by
  rw [Evaluator.evaluateRaw_eq, Evaluator.evaluateRaw_eq, evaluator, List.map_map]
  rfl

theorem compile_boundFormula (bound : BoundFormula B) (R : RewardType) :
    (p.boundFormula bound).compile R =
      (bound.compile R).map fun result => (p.evaluator result.1, result.2) := by
  rw [BoundFormula.compile, BoundFormula.compile, boundFormula]
  simp only [readersOf_map_access]
  cases R.construction with
  | error error => rfl
  | ok construction =>
    cases readersOf bound.formula bound.bindings with
    | error error => rfl
    | ok readers => rfl

/-- Where the formula resolves, only the constructors of the reward type can fail. -/
theorem forState_of_compile {c : Catalog B} {formula state : String} {e : Expr}
    {bound : BoundFormula B} {R : RewardType} {error : FormulaError}
    (hresolve : c.resolve formula e = .ok bound) (h : bound.compile R = .error error) :
    error.forState state = error := by
  obtain ⟨readers, hreaders, -⟩ := Catalog.exists_readersOf_resolve hresolve
  rw [BoundFormula.compile, hreaders] at h
  cases hk : R.construction with
  | ok construction =>
    rw [hk] at h
    cases h
  | error error' =>
    rw [hk] at h
    obtain rfl := Except.error.inj h
    rw [RewardType.construction] at hk
    split at hk
    all_goals
      cases hk
      try rfl

theorem compileWith_build {formula : String} {e : Expr} (hparse : parse formula = .ok e)
    (h : ∀ name ∈ e.names, p.Alone name) (R : RewardType) :
    Factory.compileWith (Catalog.build D) R formula =
      ((Factory.compileWith (Catalog.build B) R formula).map fun result =>
        (p.evaluator result.1, result.2)).mapError (.forState D.name) := by
  have hof {S : StateType} : Factory.compileWith (Catalog.build S) R formula =
      (Catalog.build S).resolve formula e >>= fun bound => bound.compile R := by
    rw [Factory.compileWith, hparse]
    rfl
  rw [hof, hof, p.resolve_build formula h]
  cases hresolve : (Catalog.build B).resolve formula e with
  | error error => rfl
  | ok bound =>
    show (p.boundFormula bound).compile R = ((bound.compile R).map _).mapError _
    rw [compile_boundFormula]
    cases hcompile : bound.compile R with
    | ok result => rfl
    | error error =>
      simp only [Except.map, Except.mapError, forState_of_compile hresolve hcompile]

/-- A formula to whose names no other member answers resolves for the embedding type exactly if it
does for the base, and fails with the same error otherwise, but for the name of the state type.  Its
bindings are those of the base, each one type further away; and an evaluator has the result, on a
state, that the evaluator for the base has on the state of the base. -/
theorem inherits_formula {formula : String} {e : Expr} (hparse : parse formula = .ok e)
    (halone : ∀ name ∈ e.names, p.Alone name) :
    ((∃ bound, (Catalog.build D).resolve formula e = .ok bound) ↔
      ∃ bound, (Catalog.build B).resolve formula e = .ok bound) ∧
    (∀ error, (Catalog.build B).resolve formula e = .error error →
      (Catalog.build D).resolve formula e = .error (error.forState D.name)) ∧
    (∀ bound, (Catalog.build B).resolve formula e = .ok bound →
      ∃ bound', (Catalog.build D).resolve formula e = .ok bound' ∧
        bound'.bindings = bound.bindings.map p.access ∧
        bound'.bindings.map (·.depth) = bound.bindings.map (·.depth + 1)) ∧
    ∀ R : RewardType,
      ((∃ made, Factory.compileWith (Catalog.build D) R formula = .ok made) ↔
        ∃ made, Factory.compileWith (Catalog.build B) R formula = .ok made) ∧
      ∀ made made', Factory.compileWith (Catalog.build B) R formula = .ok made →
        Factory.compileWith (Catalog.build D) R formula = .ok made' →
        ∀ s : D.State, made'.1.evaluateRaw s = made.1.evaluateRaw (p.state s) := by
  have hresolve := p.resolve_build formula halone
  refine ⟨?_, fun error h => ?_, fun bound h => ?_, fun R => ?_⟩
  · rw [hresolve]
    cases (Catalog.build B).resolve formula e <;> simp [Except.map, Except.mapError]
  · rw [hresolve, h]
    rfl
  · rw [h] at hresolve
    refine ⟨p.boundFormula bound, hresolve, rfl, ?_⟩
    simp [boundFormula, Function.comp_def, depth_access]
  · have hcompile := p.compileWith_build hparse halone R
    refine ⟨?_, fun made made' h h' s => ?_⟩
    · rw [hcompile]
      cases Factory.compileWith (Catalog.build B) R formula <;> simp [Except.map, Except.mapError]
    · rw [h, h'] at hcompile
      obtain rfl := Except.ok.inj hcompile
      exact p.evaluateRaw_evaluator made.1 s

end BasePlace

/-- A state type that embeds the hunt after a member and a base of its own, and that base again. -/
def contestState : StateType :=
  let round : Declarations :=
    .member ⟨"round", none, false, "f64", .readable (.number .float64)⟩ .nil
  ⟨"Contest", .member ⟨"score", some "points", false, "f64", .readable (.number .float64)⟩
    (.base "Round" round (.base "Hunt" huntState.declarations (.base "Round" round .nil)))⟩

/-- The member named like one of the hunt does not matter to a formula that names others. -/
theorem inherits_formula_bonus :
    let hunt : BasePlace huntState contestState.declarations := .next (.past .here)
    let title : RewardType := ⟨"Title", "Title", [.text], .literal⟩
    ∃ made made',
      Factory.compileWith (Catalog.build huntState) title "bonus - b / level" = .ok made ∧
      Factory.compileWith (Catalog.build contestState) title "bonus - b / level" = .ok made' ∧
      ∀ s : contestState.State, made'.1.evaluateRaw s = made.1.evaluateRaw (hunt.state s) := by
  intro hunt title
  have hparse : parse "bonus - b / level" =
      .ok (.binary .sub (.var "bonus" 0) (.binary .div (.var "b" 8) (.var "level" 12))) := by cbv
  have hcandidates : ∀ name ∈ ["bonus", "b", "level"], ∀ b ∈ (Catalog.build contestState).candidates
      name, b ∈ huntState.declarations.accesses.map hunt.access := by
    decide +kernel
  have halone : ∀ name ∈ ["bonus", "b", "level"], hunt.Alone name := fun name hname =>
    hunt.alone_iff.mpr (hcandidates name hname)
  obtain ⟨-, -, -, hcompile⟩ := hunt.inherits_formula hparse halone
  have hok : (Factory.compileWith (Catalog.build huntState) title "bonus - b / level").isOk =
      true := by cbv
  cases hmade : Factory.compileWith (Catalog.build huntState) title "bonus - b / level" with
  | error error =>
    rw [hmade] at hok
    cases hok
  | ok made =>
    obtain ⟨made', hmade'⟩ := (hcompile title).1.mpr ⟨made, hmade⟩
    exact ⟨made, made', rfl, hmade', (hcompile title).2 made made' hmade hmade'⟩

end QuestFormula
