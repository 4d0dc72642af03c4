import QuestFormula.Proofs.Formula.Lexeme

/-! The lexer called again and again.  One call passes over blanks and then does one of four things:
it is at the end, takes a lexeme, takes a run that is none, or stops at a character that begins
nothing.  `Calls` says so once, and what any number of calls does follows from it: the cursor stays
in the formula and never goes back, lexemes and runs take it on, and the end and a character that
begins nothing keep it where it is.  So the loop that collects the tokens ends, after at most one
call more than there are characters. -/

namespace QuestFormula

namespace Cursor

/-- The cursor after a number of calls of `next`, going on after faults and at the end. -/
def after (count : Nat) (c : Cursor) : Cursor := (fun c => c.next.2)^[count] c

/-- The cursor with more characters before it. -/
def shift (offset : Nat) (c : Cursor) : Cursor := ⟨c.rest, c.position + offset⟩

/-- What one call gives from a cursor, and where it leaves it. -/
inductive Calls (c : Cursor) : Except PlacedFault PlacedToken → Cursor → Prop
  | finish (blank : ∀ first ∈ c.rest, isBlank first) :
      Calls c (.ok ⟨.finish, c.position + c.rest.length⟩) ⟨[], c.position + c.rest.length⟩
  | token {blanks piece rest : List Char} {token : Token}
      (split : c.rest = blanks ++ (piece ++ rest)) (denotes : Denotes piece token) :
      Calls c (.ok ⟨token, c.position + blanks.length⟩)
        ⟨rest, c.position + blanks.length + piece.length⟩
  | malformed {blanks run rest : List Char} (split : c.rest = blanks ++ (run ++ rest))
      (isRun : IsRun run) (separate : Separate rest) :
      Calls c (.error ⟨c.position + blanks.length, .malformedNumber (String.ofList run)⟩)
        ⟨rest, c.position + blanks.length + run.length⟩
  | unexpected {blanks rest : List Char} {first : Char} (split : c.rest = blanks ++ first :: rest)
      (nothing : ∀ piece, piece <+: first :: rest → ¬IsPiece piece) :
      Calls c (.error ⟨c.position + blanks.length, .unexpectedCharacter first⟩)
        ⟨first :: rest, c.position + blanks.length⟩

/-- What is taken at a position, as a call gives it. -/
def placedAt (position : Nat) : Except Fault Token → Except PlacedFault PlacedToken
  | .ok token => .ok ⟨token, position⟩
  | .error fault => .error ⟨position, fault⟩

/-- Where a call found what it gave. -/
def foundAt : Except PlacedFault PlacedToken → Nat
  | .ok t => t.position
  | .error fault => fault.position

/-- What a call gives with more characters before the cursor. -/
def shifted (offset : Nat) : Except PlacedFault PlacedToken → Except PlacedFault PlacedToken
  | .ok t => .ok ⟨t.token, t.position + offset⟩
  | .error fault => .error ⟨fault.position + offset, fault.fault⟩

/-- What a call gave is the end or a fault, after which no more tokens are collected. -/
def Stops : Except PlacedFault PlacedToken → Prop
  | .ok t => t.token = .finish
  | .error _ => True

/-! ### One call -/

theorem next_eq (c : Cursor) : c.next =
    (placedAt (c.skipWhile isBlank).position (c.skipWhile isBlank).take.1,
      (c.skipWhile isBlank).take.2) := by
  rw [next]
  rcases (c.skipWhile isBlank).take with ⟨fault | token, after⟩
  · rfl
  · rfl

theorem calls_next (c : Cursor) : c.Calls c.next.1 c.next.2 := by
  have hsplit := List.takeWhile_append_dropWhile (p := isBlank) (l := c.rest)
  have hblanks : ∀ first ∈ c.rest.takeWhile isBlank, isBlank first := fun first =>
    List.mem_takeWhile_imp
  have hhead : ∀ first ∈ (c.rest.dropWhile isBlank).head?, isBlank first = false := by
    intro first h
    simpa [Option.mem_def.mp h] using List.head?_dropWhile_not isBlank c.rest
  have hskip : c.skipWhile isBlank =
      ⟨c.rest.dropWhile isBlank, c.position + (c.rest.takeWhile isBlank).length⟩ := rfl
  generalize c.rest.takeWhile isBlank = blanks at hsplit hblanks hskip
  generalize c.rest.dropWhile isBlank = text at hsplit hhead hskip
  cases text with
  | nil =>
    rw [List.append_nil] at hsplit
    subst hsplit
    rw [next_eq, hskip]
    exact .finish hblanks
  | cons first tail =>
    rcases startsWith_or_faultAt first tail with
      hblank | ⟨piece, rest, token, htext, hlongest, hdenotes⟩ | ⟨fault, hfault⟩
    · simp [hhead first rfl] at hblank
    · rw [htext] at hsplit hskip
      rw [next_eq, hskip, take_of_denotes hdenotes hlongest]
      exact .token hsplit.symm hdenotes
    · generalize first :: tail = text at hfault hsplit hskip
      cases hfault with
      | @run run rest hrun hlongest hmalformed =>
        have hseparate := hlongest.separate hrun
        rw [next_eq, hskip, take_of_malformed hrun hseparate hmalformed]
        exact .malformed hsplit.symm hrun hseparate
      | @character first rest hnothing =>
        rw [next_eq, hskip, (take_of_nothing hnothing _).2]
        exact .unexpected hsplit.symm hnothing

/-- The characters that a call goes past are the text between the cursors. -/
theorem Calls.exists_append {c next : Cursor} {result : Except PlacedFault PlacedToken}
    (h : c.Calls result next) : ∃ text, c.rest = text ++ next.rest ∧
      next.position = c.position + text.length := by
  cases h with
  | finish => exact ⟨c.rest, (List.append_nil _).symm, rfl⟩
  | @token blanks piece _ _ split =>
    exact ⟨blanks ++ piece, by rw [split, List.append_assoc], by simp [Nat.add_assoc]⟩
  | @malformed blanks run _ split =>
    exact ⟨blanks ++ run, by rw [split, List.append_assoc], by simp [Nat.add_assoc]⟩
  | @unexpected blanks _ _ split => exact ⟨blanks, split, rfl⟩

theorem Calls.le_foundAt {c next : Cursor} {result : Except PlacedFault PlacedToken}
    (h : c.Calls result next) : c.position ≤ foundAt result ∧ foundAt result ≤ next.position := by
  cases h with
  | finish => exact ⟨Nat.le_add_right _ _, le_rfl⟩
  | token => exact ⟨Nat.le_add_right _ _, Nat.le_add_right _ _⟩
  | malformed => exact ⟨Nat.le_add_right _ _, Nat.le_add_right _ _⟩
  | unexpected => exact ⟨Nat.le_add_right _ _, le_rfl⟩

/-- A token takes at least one character. -/
theorem Calls.position_lt {c next : Cursor} {t : PlacedToken} (h : c.Calls (.ok t) next)
    (ht : t.token ≠ .finish) : t.position < next.position := by
  cases h with
  | finish => exact absurd rfl ht
  | @token _ piece _ _ _ denotes =>
    have hpos := List.length_pos_iff.mpr (IsPiece.lexeme denotes).ne_nil
    exact Nat.lt_add_of_pos_right hpos

/-- At the end a call finds the end again. -/
theorem Calls.of_finish {c next : Cursor} {t : PlacedToken} (h : c.Calls (.ok t) next)
    (ht : t.token = .finish) : next = ⟨[], t.position⟩ ∧ next.next = (.ok t, next) := by
  cases h with
  | finish => exact ⟨rfl, rfl⟩
  | token _ denotes => exact absurd ht denotes.ne_finish

/-- A fault is a run that the call takes, or a character that it stops at for good. -/
theorem Calls.of_error {c next : Cursor} {fault : PlacedFault} (h : c.Calls (.error fault) next) :
    (∃ blanks run, c.rest = blanks ++ (run ++ next.rest) ∧
      fault = ⟨c.position + blanks.length, .malformedNumber (String.ofList run)⟩ ∧
      IsRun run ∧ Separate next.rest ∧ next.position = fault.position + run.length) ∨
    ∃ first, next.rest.head? = some first ∧ next.position = fault.position ∧
      fault.fault = .unexpectedCharacter first ∧ next.next = (.error fault, next) := by
  cases h with
  | malformed split isRun separate => exact .inl ⟨_, _, split, rfl, isRun, separate, rfl⟩
  | @unexpected blanks rest first _ nothing =>
    obtain ⟨hblank, htake⟩ := take_of_nothing nothing (c.position + blanks.length)
    have hskip : skipWhile ⟨first :: rest, c.position + blanks.length⟩ isBlank =
        ⟨first :: rest, c.position + blanks.length⟩ :=
      skipWhile_isBlank (by rintro _ ⟨⟩; exact hblank)
    refine .inr ⟨first, rfl, rfl, rfl, ?_⟩
    rw [next_eq, hskip, htake]
    rfl

/-! ### Many calls -/

theorem after_succ (count : Nat) (c : Cursor) : c.after (count + 1) = (c.after count).next.2 :=
  Function.iterate_succ_apply' _ _ _

theorem after_add (count more : Nat) (c : Cursor) :
    c.after (count + more) = (c.after count).after more := by
  rw [Nat.add_comm]
  exact Function.iterate_add_apply _ _ _ _

theorem steps_eq (count : Nat) (c : Cursor) :
    c.steps count = (List.range count).map fun n => (c.after n).next.1 := by
  induction count generalizing c with
  | zero => rfl
  | succ count ih =>
    rw [steps, ih, List.range_succ_eq_map, List.map_cons, List.map_map]
    rfl

/-- The cursor stands in the text. -/
theorem exists_append_after (count : Nat) (c : Cursor) :
    ∃ text, c.rest = text ++ (c.after count).rest ∧
      (c.after count).position = c.position + text.length := by
  induction count with
  | zero => exact ⟨[], rfl, rfl⟩
  | succ count ih =>
    obtain ⟨text, hrest, hposition⟩ := ih
    obtain ⟨more, hmore, hnext⟩ := (c.after count).calls_next.exists_append
    rw [after_succ, hnext, hposition, hrest, hmore]
    exact ⟨text ++ more, by rw [List.append_assoc], by rw [List.length_append, Nat.add_assoc]⟩

theorem rest_after_start (formula : String) (count : Nat) :
    ((start formula).after count).rest =
        formula.toList.drop ((start formula).after count).position ∧
      ((start formula).after count).position ≤ formula.length := by
  obtain ⟨text, hrest, hposition⟩ := exists_append_after count (start formula)
  rw [show (start formula).position = 0 from rfl, Nat.zero_add] at hposition
  have hsplit : formula.toList = text ++ ((start formula).after count).rest := hrest
  refine ⟨?_, ?_⟩
  · rw [hposition, hsplit, List.drop_left]
  · rw [hposition, ← String.length_toList, hsplit, List.length_append]
    exact Nat.le_add_right _ _

/-- A cursor that one call leaves as it is stays so, and every call gives the same there. -/
theorem after_of_next_eq {c : Cursor} {result : Except PlacedFault PlacedToken}
    (h : c.next = (result, c)) (count : Nat) : c.after count = c :=
  Function.iterate_fixed (congrArg Prod.snd h) count

/-- What is given and not passed is given by every later call. -/
theorem next_after_of_next_eq {c next : Cursor} {result : Except PlacedFault PlacedToken}
    {n m : Nat} (hn : (c.after n).next = (result, next)) (hnext : next.next = (result, next))
    (hm : n ≤ m) :
    (c.after m).next.1 = result := by
  rcases Nat.eq_or_lt_of_le hm with rfl | hlt
  · rw [hn]
  · obtain ⟨more, rfl⟩ := Nat.exists_eq_add_of_lt hlt
    rw [Nat.add_right_comm, after_add, after_succ, hn]
    dsimp only
    rw [after_of_next_eq hnext, hnext]

/-! ### What stands before the cursor plays no part -/

section Shift

variable (offset : Nat) (c : Cursor)

theorem skipWhile_shift (p : Char → Bool) :
    (c.shift offset).skipWhile p = (c.skipWhile p).shift offset := by
  simp only [skipWhile, shift, Nat.add_right_comm]

theorem take_shift : (c.shift offset).take = (c.take.1, c.take.2.shift offset) := by
  obtain ⟨rest, position⟩ := c
  cases rest with
  | nil => rfl
  | cons first tail =>
    by_cases hdigit : first.isDigit
    · simp only [take, shift, if_pos hdigit, skipWhile, Nat.add_right_comm]
    by_cases hname : isNameStart first
    · simp only [take, shift, if_neg hdigit, if_pos hname, skipWhile, Nat.add_right_comm]
    simp only [take, shift, if_neg hdigit, if_neg hname]
    cases symbolToken? first with
    | none => rfl
    | some token => simp only [Nat.add_right_comm]

theorem next_shift :
    (c.shift offset).next = (shifted offset c.next.1, c.next.2.shift offset) := by
  rw [next_eq, next_eq c, skipWhile_shift, take_shift]
  cases (c.skipWhile isBlank).take.1 with
  | ok token => rfl
  | error fault => rfl

theorem steps_shift (count : Nat) :
    (c.shift offset).steps count = (c.steps count).map (shifted offset) := by
  induction count generalizing c with
  | zero => rfl
  | succ count ih =>
    rw [steps, next_shift, steps, List.map_cons, ih]

end Shift

/-! ### Collecting the tokens -/

/-- The first call that gives the end or a fault. -/
def FirstStop (c : Cursor) (n : Nat) : Prop :=
  Stops (c.after n).next.1 ∧ ∀ m < n, ¬Stops (c.after m).next.1

theorem exists_firstStop (c : Cursor) : ∃ n ≤ c.rest.length, c.FirstStop n := by
  induction hlength : c.rest.length using Nat.strongRecOn generalizing c with
  | ind length ih =>
    subst hlength
    by_cases hstops : Stops c.next.1
    · exact ⟨0, Nat.zero_le _, hstops, nofun⟩
    · have hcalls := c.calls_next
      obtain ⟨text, hrest, hposition⟩ := hcalls.exists_append
      have hpassed : 0 < text.length := by
        cases hresult : c.next.1 with
        | error fault =>
          rw [hresult] at hstops
          exact absurd trivial hstops
        | ok t =>
          rw [hresult] at hcalls hstops
          have h1 := hcalls.le_foundAt.1
          have h2 := hcalls.position_lt hstops
          rw [foundAt] at h1
          omega
      have hlength : c.rest.length = text.length + c.next.2.rest.length := by
        rw [hrest, List.length_append]
      obtain ⟨n, hn, hstop, hbefore⟩ := ih _ (by omega) c.next.2 rfl
      refine ⟨n + 1, by omega, hstop, fun m hm => ?_⟩
      cases m with
      | zero => exact hstops
      | succ m => exact hbefore m (Nat.lt_of_succ_lt_succ hm)

/-- The tokens are what the calls give up to the first end, and a fault is the first one. -/
theorem tokens_eq_steps {c : Cursor} {n : Nat} (h : c.FirstStop n) :
    c.tokens.map TokenStream.toList = (c.steps (n + 1)).mapM id := by
  induction n generalizing c with
  | zero =>
    have hstops : Stops c.next.1 := h.1
    rw [tokens_eq, steps, steps, List.mapM_cons, List.mapM_nil]
    rcases hnext : c.next with ⟨t | t, after⟩
    · rfl
    · rw [hnext] at hstops
      obtain ⟨token, position⟩ := t
      obtain rfl : token = .finish := hstops
      rfl
  | succ n ih =>
    have hstops : ¬Stops c.next.1 := h.2 0 (Nat.zero_lt_succ n)
    have hlater : c.next.2.FirstStop n := ⟨h.1, fun m hm => h.2 (m + 1) (Nat.succ_lt_succ hm)⟩
    have htokens := ih hlater
    rw [tokens_eq, steps, List.mapM_cons]
    rcases hnext : c.next with ⟨t | t, after⟩
    · rw [hnext] at hstops
      exact absurd trivial hstops
    · rw [hnext] at hstops htokens
      have hfinish : t.token ≠ .finish := hstops
      dsimp only at htokens ⊢
      rw [if_neg hfinish, ← htokens]
      cases after.tokens <;> rfl

/-- However often the lexer is called, faults and the end included, the cursor stands in the formula
and neither it nor what is found goes back; a token takes at least one character.  A fault is either
a run that is no literal, which is taken as a whole before the lexer goes on as on the rest of the
formula alone, or a character that begins nothing, which every later call finds again; and the end,
once found, is found for ever, at the number of characters.  Collecting the tokens takes at most one
call more than there are characters, and gives what the calls gave up to the first end or fault. -/
theorem calls_make_progress (formula : String) :
    let place (n : Nat) : Cursor := (start formula).after n
    let result (n : Nat) : Except PlacedFault PlacedToken := (place n).next.1
    (∀ count, (start formula).steps count = (List.range count).map result) ∧
    (∀ n, (place n).rest = formula.toList.drop (place n).position ∧
      (place n).position ≤ formula.length ∧
      (place n).position ≤ foundAt (result n) ∧ foundAt (result n) ≤ (place (n + 1)).position) ∧
    (∀ n t, result n = .ok t → t.token ≠ .finish → t.position < (place (n + 1)).position) ∧
    (∀ n fault, result n = .error fault →
      (∃ run rest, formula.toList.drop fault.position = run ++ rest ∧ IsRun run ∧ Separate rest ∧
        fault.fault = .malformedNumber (String.ofList run) ∧
        place (n + 1) = ⟨rest, fault.position + run.length⟩ ∧
        ∀ count, (place (n + 1)).steps count =
          ((start (String.ofList rest)).steps count).map (shifted (fault.position + run.length))) ∨
      ∃ first ∈ (formula.toList.drop fault.position).head?,
        fault.fault = .unexpectedCharacter first ∧ ∀ m ≥ n, result m = .error fault) ∧
    (∀ n t, result n = .ok t → t.token = .finish →
      t.position = formula.length ∧ ∀ m ≥ n, result m = .ok t) ∧
    ∃ n ≤ formula.length, Stops (result n) ∧ (∀ m < n, ¬Stops (result m)) ∧
      (tokenize formula).map TokenStream.toList = ((start formula).steps (n + 1)).mapM id := by
  intro place result
  have hcalls (n : Nat) : (place n).Calls (result n) (place (n + 1)) := by
    have h := (place n).calls_next
    rwa [← after_succ] at h
  have hnext (n : Nat) : (place n).next = (result n, place (n + 1)) :=
    Prod.ext rfl (after_succ n _).symm
  have hplace (n : Nat) := rest_after_start formula n
  refine ⟨fun count => steps_eq count _,
    fun n => ⟨(hplace n).1, (hplace n).2, (hcalls n).le_foundAt⟩,
    fun n t ht hfinish => (ht ▸ hcalls n).position_lt hfinish, fun n fault hfault => ?_,
    fun n t ht hfinish => ?_, ?_⟩
  · rcases (hfault ▸ hcalls n).of_error with
      ⟨blanks, run, hsplit, hfault', hrun, hseparate, hend⟩ |
      ⟨first, hfirst, hposition, hcharacter, hstays⟩
    · have hcursor : place (n + 1) = shift (fault.position + run.length)
          (start (String.ofList (place (n + 1)).rest)) := by
        rw [← hend, start, shift, String.toList_ofList, Nat.zero_add]
      refine .inl ⟨run, (place (n + 1)).rest, ?_, hrun, hseparate, by rw [hfault'], ?_,
        fun count => ?_⟩
      · rw [hfault', ← List.drop_drop, ← (hplace n).1, hsplit, List.drop_left]
      · rw [← hend]
      · rw [← steps_shift, ← hcursor]
    · refine .inr ⟨first, ?_, hcharacter, fun m hm => ?_⟩
      · rw [← hposition, ← (hplace (n + 1)).1]
        exact hfirst
      · exact next_after_of_next_eq ((hnext n).trans (by rw [hfault])) hstays hm
  · obtain ⟨hend, hstays⟩ := (ht ▸ hcalls n).of_finish hfinish
    refine ⟨?_, fun m hm => next_after_of_next_eq ((hnext n).trans (by rw [ht])) hstays hm⟩
    -- nothing is left of the formula after it
    obtain ⟨hrest, hle⟩ := hplace (n + 1)
    rw [show (start formula).after (n + 1) = _ from hend] at hrest hle
    have hge := List.drop_eq_nil_iff.mp hrest.symm
    rw [String.length_toList] at hge
    exact le_antisymm hle hge
  · obtain ⟨n, hn, hstop, hbefore⟩ := (start formula).exists_firstStop
    rw [start, String.length_toList] at hn
    exact ⟨n, hn, hstop, hbefore, tokens_eq_steps ⟨hstop, hbefore⟩⟩

/-- A run with two points, a name after it, and a character that is in no token. -/
theorem calls_make_progress_points :
    let result (n : Nat) := ((start "1.2.3 kills % 2").after n).next.1
    result 0 = .error ⟨0, .malformedNumber "1.2.3"⟩ ∧ result 1 = .ok ⟨.name "kills", 6⟩ ∧
    (∀ count, ((start "1.2.3 kills % 2").after 1).steps count =
      ((start " kills % 2").steps count).map (shifted 5)) ∧
    ∀ m ≥ 2, result m = .error ⟨12, .unexpectedCharacter '%'⟩ := by
  intro result
  have hpoints : result 0 = .error ⟨0, .malformedNumber "1.2.3"⟩ := by cbv
  have hpercent : result 2 = .error ⟨12, .unexpectedCharacter '%'⟩ := by cbv
  obtain ⟨-, -, -, hfault, -⟩ := calls_make_progress "1.2.3 kills % 2"
  refine ⟨hpoints, by cbv, fun count => ?_, ?_⟩
  · rcases hfault 0 _ hpoints with ⟨run, rest, hsplit, -, -, hrun, -, hrest⟩ | ⟨_, -, h, -⟩
    · obtain rfl : run = "1.2.3".toList := by
        rw [Fault.malformedNumber.inj hrun, String.toList_ofList]
      have htext : "1.2.3".toList ++ rest = "1.2.3".toList ++ " kills % 2".toList :=
        hsplit.symm.trans (by decide)
      rw [List.append_cancel_left htext, String.ofList_toList] at hrest
      exact hrest count
    · cases h
  · rcases hfault 2 _ hpercent with ⟨_, _, -, -, -, h, -⟩ | ⟨_, -, -, h⟩
    · cases h
    · exact h

end Cursor

end QuestFormula
