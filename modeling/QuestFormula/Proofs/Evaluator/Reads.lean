import QuestFormula.Proofs.Evaluator.Compilation
import QuestFormula.Quest.Template

/-! What evaluating a formula reads.  Binding goes through the names of a formula from left to right
and gives each member a slot where a name first refers to it: `Binds.refers` has the members that
the names refer to, the slots that stand for the names, and the bindings, which are those members
without repetitions.  An evaluator reads its bindings in order, into cells or into an array, and
nothing else of the state; so it reads each member that its formula refers to once, by first use,
and a template reads what its rewards read, one after another. -/

namespace QuestFormula

/-! ### The names of a formula -/

def Token.name? : Token → Option String
  | .name text => some text
  | _ => none

theorem Derives.names_eq {phrase : Phrase} {ts : List PlacedToken} {e : Expr}
    (h : Derives phrase ts e) : e.names = ts.filterMap (·.token.name?) := by
  induction h with
  | number | name => rfl
  | parens _ _ _ ih => simp [ih, Token.name?]
  | primary _ ih | unary _ ih | factor _ ih => exact ih
  | minus _ _ ih => exact ih
  | product _ _ _ _ ihl ihr | sum _ _ _ _ ihl ihr => simp [Expr.names, ihl, ihr, Token.name?]

/-- The names of a parsed formula are its name tokens, from left to right. -/
theorem names_of_parse {formula : String} {e : Expr} (h : parse formula = .ok e) :
    ∃ stream, tokenize formula = .ok stream ∧
      e.names = stream.tokens.filterMap (·.token.name?) := by
  obtain ⟨stream, htok, hderives⟩ := exists_derives_of_parse h
  exact ⟨stream, htok, hderives.names_eq⟩

/-! ### Slots in the order of first use -/

namespace Catalog

variable {S : StateType} {c : Catalog S} {formula : String}

theorem nodup_allocate {bs : List (Binding S)} (h : bs.Nodup) (b : Binding S) :
    (allocate bs b).2.Nodup := by
  unfold allocate
  split
  · exact h
  · rename_i hnone
    exact List.nodup_append.mpr ⟨h, List.nodup_singleton b, fun a ha _ hb heq =>
      List.idxOf?_eq_none_iff.mp hnone (List.mem_singleton.mp hb ▸ heq ▸ ha)⟩

/-- A further member that is referred to gets a slot unless it has one. -/
theorem allocate_eraseDups (referred : List (Binding S)) (b : Binding S) :
    (allocate referred.eraseDups b).2 = (referred ++ [b]).eraseDups := by
  rw [List.eraseDups_append, allocate]
  split
  · rename_i slot h
    obtain ⟨hlt, hb, -⟩ := List.idxOf?_eq_some_iff.mp h
    have hmem : b ∈ referred := List.mem_eraseDups.mp (hb ▸ List.getElem_mem hlt)
    simp [List.removeAll, hmem]
  · rename_i hnone
    have hnew : b ∉ referred :=
      fun hmem => List.idxOf?_eq_none_iff.mp hnone (List.mem_eraseDups.mpr hmem)
    simp [List.removeAll, hnew, List.eraseDups_cons]

/-- The bindings with those of members that are referred to in turn. -/
def allocateAll (bs referred : List (Binding S)) : List (Binding S) :=
  referred.foldl (fun bs b => (allocate bs b).2) bs

theorem allocateAll_nil (referred : List (Binding S)) :
    allocateAll [] referred = referred.eraseDups := by
  induction referred using List.reverseRecOn with
  | nil => rfl
  | append_singleton referred b ih =>
    rw [← allocate_eraseDups, ← ih, allocateAll, List.foldl_append]
    rfl

theorem nodup_allocateAll {bs : List (Binding S)} (h : bs.Nodup) (referred : List (Binding S)) :
    (allocateAll bs referred).Nodup := by
  induction referred generalizing bs with
  | nil => exact h
  | cons b referred ih => exact ih (nodup_allocate h b)

/-- The names refer to members, and the slots stand for the same members in turn. -/
theorem Binds.refers {bs bs' : List (Binding S)} {e : Expr} {e' : BoundExpr}
    (h : c.Binds formula bs e e' bs') :
    ∃ referred, List.Forall₂ (fun name b => c.lookup formula name = .ok b) e.names referred ∧
      bs' = allocateAll bs referred ∧
      List.Forall₂ (fun slot b => bs'[slot]? = some b) e'.slots referred := by
  induction h with
  | literal => exact ⟨[], .nil, rfl, .nil⟩
  | @var b name bs _ found =>
    exact ⟨[b], .cons found .nil, rfl, .cons (getElem?_allocate bs b) .nil⟩
  | @binary bs bs' bs'' l r l' r' _ left right ihl ihr =>
    obtain ⟨ls, hls, rfl, hslots⟩ := ihl
    obtain ⟨rs, hrs, rfl, hslots'⟩ := ihr
    refine ⟨ls ++ rs, List.rel_append hls hrs, List.foldl_append.symm, ?_⟩
    -- the slots of the left operand keep their bindings while the right one is bound
    have hkept : List.Forall₂ (fun slot b => (allocateAll (allocateAll bs ls) rs)[slot]? = some b)
        l'.slots ls := hslots.imp fun slot b => getElem?_mono right.isPrefix
    exact List.rel_append hkept hslots'
  | negate _ ih => exact ih

theorem resolve_refers {e : Expr} {bound : BoundFormula S} (h : c.resolve formula e = .ok bound) :
    ∃ referred, List.Forall₂ (fun name b => c.lookup formula name = .ok b) e.names referred ∧
      bound.bindings = referred.eraseDups ∧ bound.bindings.Nodup ∧
      List.Forall₂ (fun slot b => bound.bindings[slot]? = some b) bound.expr.slots referred := by
  obtain ⟨referred, hlookup, hbindings, hslots⟩ := (resolve_eq_ok h).2.refers
  have hnodup : bound.bindings.Nodup := hbindings ▸ nodup_allocateAll List.nodup_nil referred
  exact ⟨referred, hlookup, hbindings.trans (allocateAll_nil referred), hnodup, hslots⟩

/-- The slots of a bound formula are the numbers below that of its bindings. -/
theorem mem_slots_iff {e : Expr} {bound : BoundFormula S} (h : c.resolve formula e = .ok bound)
    (slot : Nat) : slot ∈ bound.expr.slots ↔ slot < bound.bindings.length := by
  refine ⟨(resolve_eq_ok h).2.slot_lt_length, fun hlt => ?_⟩
  obtain ⟨referred, -, hbindings, hnodup, hslots⟩ := resolve_refers h
  have hunique : Relator.BiUnique fun slot b => bound.bindings[slot]? = some b :=
    ⟨fun slot b slot' hb hb' =>
        (List.getElem?_inj (List.getElem?_eq_some_iff.mp hb).1 hnodup).mp (hb.trans hb'.symm),
      fun slot b b' hb hb' => Option.some.inj (hb.symm.trans hb')⟩
  refine (List.rel_mem hunique (List.getElem?_eq_getElem hlt) hslots).mpr ?_
  exact List.mem_eraseDups.mp (hbindings ▸ List.getElem_mem hlt)

end Catalog

/-! ### Evaluation -/

variable {S : StateType}

theorem Evaluator.reads_trace (e : Evaluator S) (state : S.State) :
    (e.trace state).reads = e.readers.map Reader.binding := by
  rw [trace_eq]

/-- Building the reward reads nothing more. -/
theorem Evaluator.reads_traceReward (e : Evaluator S) (state : S.State) :
    (e.traceReward state).reads = (e.trace state).reads :=
  List.append_nil _

theorem Evaluator.reads_grant (e : Evaluator S) (state : S.State) :
    (e.grant state).reads = (e.trace state).reads :=
  List.append_nil _

theorem TemplateReward.reads_grant (quest : String) (r : TemplateReward S) (state : S.State) :
    (r.grant quest state).reads = (r.evaluator.grant state).reads :=
  List.append_nil _

theorem Template.reads_grant (t : Template S) (state : S.State) :
    (t.grant state).reads = t.rewards.flatMap fun r => (r.evaluator.grant state).reads := by
  refine (List.append_nil _).trans ((Traced.reads_mapM _ _).trans ?_)
  exact congrArg t.rewards.flatMap (funext fun r => r.reads_grant t.id state)

/-- The result depends on nothing in the state but the members read. -/
theorem AreReadersOf.evaluateRaw_congr {e : Evaluator S} {bs : List (Binding S)}
    (h : AreReadersOf e.readers bs) {state state' : S.State}
    (hsame : ∀ b ∈ bs, b.read? state = b.read? state') :
    e.evaluateRaw state = e.evaluateRaw state' := by
  obtain ⟨rfl, hread⟩ := h
  have hvalues : e.readers.map (Reader.read · state) = e.readers.map (Reader.read · state') := by
    refine List.map_congr_left fun r hr => ?_
    have hb := hsame r.binding (List.mem_map_of_mem hr)
    rw [Binding.read?, Binding.read?, hread r hr] at hb
    exact Option.some.inj hb
  rw [Evaluator.evaluateRaw_eq, Evaluator.evaluateRaw_eq, hvalues]

/-- The bindings of a formula are the members that its names refer to, by first use and each once;
its slots stand for the names in turn, and no binding is without one.  An evaluator reads the
bindings in their order, for the result alone and for the reward, however many there are, and the
result depends on nothing else in the state; and a template reads what each of its rewards reads in
turn. -/
theorem Catalog.reads_by_first_use (c : Catalog S) (formula : String) :
    (∀ expr, parse formula = .ok expr → ∃ stream, tokenize formula = .ok stream ∧
      expr.names = stream.tokens.filterMap (·.token.name?)) ∧
    (∀ expr bound, c.resolve formula expr = .ok bound →
      (∃ referred, List.Forall₂ (fun name b => c.lookup formula name = .ok b) expr.names referred ∧
        bound.bindings = referred.eraseDups ∧ bound.bindings.Nodup ∧
        List.Forall₂ (fun slot b => bound.bindings[slot]? = some b) bound.expr.slots referred) ∧
      (∀ slot, slot ∈ bound.expr.slots ↔ slot < bound.bindings.length) ∧
      ∀ R, (∀ parameter, R.constructors = [parameter] → ∃ made, bound.compile R = .ok made) ∧
        ∀ e savings, bound.compile R = .ok (e, savings) → ∀ state,
          (e.trace state).reads = bound.bindings ∧ (e.traceReward state).reads = bound.bindings ∧
          (e.grant state).reads = bound.bindings ∧
          ∀ state', (∀ b ∈ bound.bindings, b.read? state = b.read? state') →
            e.evaluateRaw state = e.evaluateRaw state') ∧
    ∀ (t : Template S) state,
      (t.grant state).reads = t.rewards.flatMap fun r => (r.evaluator.grant state).reads := by
  refine ⟨fun expr => names_of_parse, fun expr bound h => ⟨resolve_refers h, mem_slots_iff h,
    fun R => ⟨fun parameter hparameter => ?_, fun e savings he state => ?_⟩⟩, Template.reads_grant⟩
  · obtain ⟨e, savings, he⟩ := compile_of_constructors h hparameter
    exact ⟨(e, savings), he⟩
  · obtain ⟨readers, parameter, hread, -, hmade⟩ := compile_eq_ok h he
    have hread : AreReadersOf e.readers bound.bindings := by rwa [hmade]
    have htrace : (e.trace state).reads = bound.bindings := (e.reads_trace state).trans hread.1
    exact ⟨htrace, (e.reads_traceReward state).trans htrace, (e.reads_grant state).trans htrace,
      fun state' => hread.evaluateRaw_congr⟩

/-- A member under both of its names has one slot, and is read before the one between them. -/
theorem Catalog.reads_by_first_use_alias :
    let bonus : Binding huntState := .past (.past (.next .here))
    let level : Binding huntState := .past (.past (.next (.next .here)))
    let formula := "(bonus - level) / -b"
    ∃ expr bound e savings, parse formula = .ok expr ∧ expr.names = ["bonus", "level", "b"] ∧
      (Catalog.build huntState).resolve formula expr = .ok bound ∧
      bound.expr.slots = [0, 1, 0] ∧ bound.bindings = [bonus, level] ∧
      bound.compile ⟨"Title", "Title", [.text], .literal⟩ = .ok (e, savings) ∧
      ∀ state, (e.grant state).reads = [bonus, level] := by
  intro bonus level formula
  have hparse : parse formula = .ok (.binary .div
      (.binary .sub (.var "bonus" 1) (.var "level" 9)) (.negate (.var "b" 19))) := by cbv
  have hresolve : (Catalog.build huntState).resolve formula (.binary .div
      (.binary .sub (.var "bonus" 1) (.var "level" 9)) (.negate (.var "b" 19))) =
      .ok ⟨formula, .binary .div (.binary .sub (.slot 0) (.slot 1)) (.negate (.slot 0)),
        [bonus, level]⟩ := by cbv
  obtain ⟨-, -, heval⟩ :=
    (Catalog.reads_by_first_use (Catalog.build huntState) formula).2.1 _ _ hresolve
  obtain ⟨⟨e, savings⟩, hcompile⟩ :=
    (heval ⟨"Title", "Title", [.text], .literal⟩).1 .text rfl
  exact ⟨_, _, e, savings, hparse, rfl, hresolve, rfl, rfl, hcompile, fun state =>
    ((heval _).2 e savings hcompile state).2.2.1⟩

end QuestFormula
