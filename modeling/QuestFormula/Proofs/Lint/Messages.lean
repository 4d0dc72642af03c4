import QuestFormula.Proofs.Formula.FirstFault
import QuestFormula.Proofs.Number.Invariant
import QuestFormula.Proofs.Quest.Directory
import QuestFormula.Proofs.QuestFile.Format

/-! Messages stand on one line.  What a message repeats comes from one line of a quest file: the
pieces of the line, the formula in it, and the tokens of that formula, which are names and numbers.
So a message about a quest file or a formula has no line feed of its own; only that of the system
for a file that cannot be read, and a path, could have one. -/

namespace QuestFormula

/-- The text has no line feed. -/
def OneLine (text : String) : Prop := '\n' ∉ text.toList

instance (text : String) : Decidable (OneLine text) :=
  inferInstanceAs (Decidable ('\n' ∉ text.toList))

theorem oneLine_append {s t : String} : OneLine (s ++ t) ↔ OneLine s ∧ OneLine t := by
  simp [OneLine]

theorem oneLine_of_isBlank_eq_false {s : String} (h : ∀ c ∈ s.toList, isBlank c = false) :
    OneLine s := fun hmem => Bool.false_ne_true ((h '\n' hmem).symm.trans rfl)

@[simp] theorem newline_not_mem_toDigits (n : Nat) : '\n' ∉ Nat.toDigits 10 n := fun hmem =>
  absurd (Nat.isDigit_of_mem_toDigits (by decide) (by decide) hmem) (by decide)

theorem oneLine_intercalate (separator : String) (hseparator : OneLine separator)
    {texts : List String} (h : ∀ text ∈ texts, OneLine text) :
    OneLine (separator.intercalate texts) := by
  induction texts with
  | nil => simp [OneLine]
  | cons text rest ih =>
    obtain ⟨htext, hrest⟩ := List.forall_mem_cons.mp h
    cases rest with
    | nil => rwa [String.intercalate_singleton]
    | cons next rest =>
      rw [String.intercalate_cons_cons, oneLine_append, oneLine_append]
      exact ⟨⟨htext, hseparator⟩, ih hrest⟩

/-! ### Formulas -/

theorem IsIdentifier.oneLine {text : String} (h : IsIdentifier text) : OneLine text :=
  oneLine_of_isBlank_eq_false fun c hc =>
    isBlank_of_isLiteralChar (isLiteralChar_of_isNameChar (h.isNameChar c hc))

theorem oneLine_displayFloat (x : Float) : OneLine (displayFloat x) := by
  cases h : (floatValue x).isFinite with
  | true =>
    obtain ⟨negative, pattern, hlt, -, htext⟩ := exists_eq_floatOfPattern h
    obtain ⟨d, hd, -⟩ := exists_plainText_magnitudeText hlt
    rw [htext]
    refine oneLine_of_isBlank_eq_false fun c hc => hd.isBlank_eq_false negative c ?_
    rwa [String.toList_ofList] at hc
  | false =>
    rw [displayFloat, BinaryFormat.display, ← floatValue]
    cases hvalue : floatValue x with
    | nan => simp [OneLine]
    | infinite negative => cases negative <;> simp [OneLine]
    | finite =>
      rw [hvalue] at h
      cases h

theorem Token.IsLexed.oneLine {token : Token} (h : token.IsLexed) : OneLine token.describe := by
  cases token with
  | number value =>
    simpa [Token.describe.eq_def, OneLine, toString] using oneLine_displayFloat value
  | name text =>
    simpa [Token.describe.eq_def, OneLine, toString] using IsIdentifier.oneLine h
  | operator op => cases op <;> simp [Token.describe.eq_def, OneLine, toString, Operator.symbol]
  | openParen | closeParen | finish => simp [Token.describe.eq_def, OneLine]

theorem ParseState.oneLine_of_step_error {s : ParseState} {t : PlacedToken} {fault : PlacedFault}
    (h : s.step t = .error fault) (ht : OneLine t.token.describe) :
    OneLine fault.fault.message := by
  rw [OneLine] at ht
  obtain ⟨-, hfault | hfault | hfault | ⟨openedAt, hfault⟩⟩ := step_error_cases h <;>
    simp [hfault, Fault.message.eq_def, OneLine, toString, ht]

theorem ParseState.oneLine_of_finish_error {s : ParseState} {length : Nat} {fault : PlacedFault}
    (h : s.finish length = .error fault) : OneLine fault.fault.message := by
  obtain ⟨pending, outer, factor⟩ := s
  match factor, outer, h with
  | none, _, h =>
    cases h
    simp [Fault.message.eq_def, Token.describe.eq_def, OneLine, toString]
  | some factor, (openedAt, before) :: outer, h =>
    cases h
    simp [Fault.message.eq_def, OneLine, toString]

theorem FaultAt.oneLine {text : List Char} {fault : Fault} (h : FaultAt text fault)
    (htext : '\n' ∉ text) : OneLine fault.message := by
  cases h with
  | run =>
    have hrun := mt (List.mem_append_left _) htext
    simpa [Fault.message.eq_def, OneLine, toString] using hrun
  | character =>
    have hc := (not_or.mp (mt List.mem_cons.mpr htext)).1
    simpa [Fault.message.eq_def, OneLine, toString] using hc

theorem TokenStream.oneLine_of_parse_error {stream : TokenStream} {fault : PlacedFault}
    (h : stream.parse = .error fault) (htokens : ∀ t ∈ stream.tokens, t.token.IsLexed) :
    OneLine fault.fault.message := by
  rw [parse] at h
  split_ifs at h with hnil
  · cases h
    simp [Fault.message.eq_def, OneLine]
  · cases hrun : stream.tokens.foldlM ParseState.step ParseState.start with
    | error fault' =>
      rw [hrun] at h
      cases h
      obtain ⟨before, t, after, s, heq, -, hstep⟩ := exists_of_foldlM_error hrun
      exact ParseState.oneLine_of_step_error hstep (htokens t (by simp [heq])).oneLine
    | ok s =>
      rw [hrun] at h
      exact ParseState.oneLine_of_finish_error h

/-- An error of a formula on one line is on one line. -/
theorem oneLine_of_parse_error {formula : String} {error : FormulaError}
    (h : parse formula = .error error) (hformula : OneLine formula) : OneLine error.message := by
  have hmessage {fault : PlacedFault} (hfault : OneLine fault.fault.message) :
      OneLine (FormulaError.parse formula fault).message := by
    rw [OneLine] at hformula hfault
    simp [FormulaError.message.eq_def, OneLine, toString, hformula, hfault]
  obtain ⟨fault, rfl, htokenize | ⟨stream, htokenize, hparse⟩⟩ := parse_eq_error_cases h
  · obtain ⟨ls, rest, hsplits, -, hfault⟩ := tokenize_eq_error_iff.mp htokenize
    exact hmessage (hfault.oneLine fun hmem => hformula (hsplits.isSuffix.subset hmem))
  · exact hmessage (TokenStream.oneLine_of_parse_error hparse
      (Cursor.isLexed_of_tokens htokenize))

theorem isIdentifier_of_mem_names {e : Expr} {literal : Float → Prop}
    (h : e.Leaves literal IsIdentifier) : ∀ name ∈ e.names, IsIdentifier name := by
  induction e with
  | literal => exact fun _ hname => absurd hname List.not_mem_nil
  | var text => exact List.forall_mem_singleton.mpr h
  | binary op l r ihl ihr =>
    exact fun name hname => (List.mem_append.mp hname).elim (ihl h.1 name) (ihr h.2 name)
  | negate e ih => exact ih h

theorem oneLine_of_mem_variableNames {formula : String} {e : Expr} (h : parse formula = .ok e) :
    ∀ name ∈ e.variableNames, OneLine name := fun name hname =>
  (isIdentifier_of_mem_names (leaves_of_parse h) name (List.mem_eraseDups.mp hname)).oneLine

/-! ### Lines of a quest file -/

theorem not_mem_of_mem_splitOn {sep : Char} {text piece : List Char}
    (h : piece ∈ text.splitOn sep) : sep ∉ piece := by
  induction text generalizing piece with
  | nil =>
    rw [List.splitOn_nil, List.mem_singleton] at h
    rw [h]
    exact List.not_mem_nil
  | cons c text ih =>
    rw [List.splitOn, List.splitOnP_cons_eq_if_modifyHead] at h
    split_ifs at h with hc
    · rcases List.mem_cons.mp h with rfl | h
      · exact List.not_mem_nil
      · exact ih h
    · obtain ⟨first, rest, hsplit⟩ :=
        List.exists_cons_of_ne_nil (List.splitOnP_ne_nil (· == sep) text)
      rw [hsplit, List.modifyHead_cons] at h
      rw [List.splitOn, hsplit] at ih
      rcases List.mem_cons.mp h with rfl | h
      · refine List.not_mem_cons_of_ne_of_not_mem (fun heq => hc (by simp [heq])) ?_
        exact ih List.mem_cons_self
      · exact ih (List.mem_cons_of_mem _ h)

theorem trimBlank_subset (text : List Char) : trimBlank text ⊆ text := fun c hc => by
  rw [trimBlank, List.mem_reverse] at hc
  have hleft := List.mem_reverse.mp ((List.dropWhile_sublist _).subset hc)
  exact (List.dropWhile_sublist _).subset hleft

theorem toList_textBefore_subset (separator : Char) (text : List Char) :
    (textBefore separator text).toList ⊆ text := by
  rw [textBefore, String.toList_ofList]
  exact List.Subset.trans (trimBlank_subset _) (List.takeWhile_sublist _).subset

theorem toList_textAfter_subset (separator : Char) (text : List Char) :
    (textAfter separator text).toList ⊆ text := by
  rw [textAfter, String.toList_ofList]
  exact List.Subset.trans (trimBlank_subset _)
    ((List.drop_sublist _ _).trans (List.dropWhile_sublist _)).subset

namespace TextLine

variable {line : TextLine}

theorem oneLine_key (h : '\n' ∉ line.content) : OneLine line.key := fun hmem =>
  h (toList_textBefore_subset _ _ hmem)

theorem oneLine_value (h : '\n' ∉ line.content) : OneLine line.value := fun hmem =>
  h (toList_textAfter_subset _ _ hmem)

theorem oneLine_rewardType (h : '\n' ∉ line.content) : OneLine line.rewardType := fun hmem =>
  oneLine_value h (toList_textBefore_subset _ _ hmem)

theorem oneLine_formula (h : '\n' ∉ line.content) : OneLine line.formula := fun hmem =>
  oneLine_value h (toList_textAfter_subset _ _ hmem)

end TextLine

theorem newline_not_mem_content {text : String} {line : TextLine}
    (h : line ∈ significantLines text) : '\n' ∉ line.content := by
  obtain ⟨⟨piece, number⟩, hpiece, rfl⟩ := List.mem_map.mp (List.mem_of_mem_filter h)
  have hmem : piece ∈ text.toList.splitOn '\n' := (List.mem_zipIdx hpiece).2.2 ▸ List.getElem_mem _
  exact fun hnewline => not_mem_of_mem_splitOn hmem (trimBlank_subset _ hnewline)

theorem Offends.oneLine {before : List TextLine} {line : TextLine} {e : QuestFileError}
    (h : Offends before line e) (hline : '\n' ∉ line.content) : OneLine e.message := by
  have hkey := TextLine.oneLine_key hline
  have hvalue := TextLine.oneLine_value hline
  have htype := TextLine.oneLine_rewardType hline
  rw [OneLine] at hkey hvalue htype
  cases h <;> simp [QuestFileError.message.eq_def, RewardFault.message.eq_def, OneLine, toString, *]

theorem Lacks.oneLine {lines : List TextLine} {e : QuestFileError} (h : Lacks lines e) :
    OneLine e.message := by
  cases h <;> simp [QuestFileError.message.eq_def, OneLine, toString]

/-! ### Rewards in the order of their lines -/

theorem pairwise_number_significantLines (text : String) :
    (significantLines text).Pairwise fun line line' => line.number < line'.number := by
  refine List.Pairwise.filter _ (List.pairwise_map.mpr ?_)
  have hnumbers : (((text.toList.splitOn '\n').zipIdx 1).map Prod.snd).Pairwise (· < ·) := by
    rw [List.zipIdx_map_snd]
    exact List.pairwise_lt_range' 1
  exact List.pairwise_map.mp hnumbers

/-- What the rewards of a quest file are like: each stands on a later line than those before it, and
what it says is on that line. -/
structure InLineOrder (rewards : List RewardLine) : Prop where
  ordered : rewards.Pairwise fun r r' => r.line < r'.line
  rewardType : ∀ r ∈ rewards, OneLine r.rewardType
  formula : ∀ r ∈ rewards, OneLine r.formula

theorem inLineOrder_rewardsOf (text : String) :
    InLineOrder (rewardsOf (significantLines text)) := by
  have hlines {r : RewardLine} (hr : r ∈ rewardsOf (significantLines text)) :
      ∃ line ∈ significantLines text, line.reward = r := by
    obtain ⟨line, hline, rfl⟩ := List.mem_map.mp hr
    exact ⟨line, List.mem_of_mem_filter hline, rfl⟩
  refine ⟨?_, fun r hr => ?_, fun r hr => ?_⟩
  · exact List.pairwise_map.mpr ((pairwise_number_significantLines text).filter _)
  · obtain ⟨line, hline, rfl⟩ := hlines hr
    exact TextLine.oneLine_rewardType (newline_not_mem_content hline)
  · obtain ⟨line, hline, rfl⟩ := hlines hr
    exact TextLine.oneLine_formula (newline_not_mem_content hline)

namespace QuestFile

theorem oneLine_of_parse_error {text : String} {e : QuestFileError}
    (h : (parse text).value = .error e) : OneLine e.message := by
  rw [value_parse] at h
  rcases clean_or_firstOffence (significantLines text) with hclean | ⟨first, hfirst⟩
  · rw [QuestDraft.read_of_clean hclean] at h
    exact ((QuestDraft.finish_error_iff (clean_iff.mp hclean)).mp h).oneLine
  · rw [QuestDraft.read_of_firstOffence hfirst] at h
    obtain rfl := Except.error.inj h
    obtain ⟨before, line, after, hsplit, -, hoffends⟩ := hfirst
    have hline : line ∈ significantLines text := by simp [hsplit]
    exact hoffends.oneLine (newline_not_mem_content hline)

theorem inLineOrder_of_parse {text : String} {q : QuestFile} (h : (parse text).value = .ok q) :
    InLineOrder q.rewards := by
  rw [value_parse] at h
  rcases clean_or_firstOffence (significantLines text) with hclean | ⟨first, hfirst⟩
  · rw [QuestDraft.read_of_clean hclean] at h
    obtain ⟨-, rfl⟩ := (QuestDraft.finish_ok_iff (clean_iff.mp hclean)).mp h
    exact inLineOrder_rewardsOf text
  · rw [QuestDraft.read_of_firstOffence hfirst] at h
    cases h

/-! ### Quest files of a directory -/

theorem oneLine_of_ofText_error {path : String} {read : Except FileFault String}
    {e : QuestFileError} (h : (ofText path read).value = .error e) (hpath : OneLine path)
    (hsystem : ∀ message, read = .error (.other message) → OneLine message) :
    OneLine e.message := by
  cases read with
  | error fault =>
    have hfault : OneLine fault.message := by
      cases fault with
      | other message => exact hsystem message rfl
      | notFound | notDirectory | isDirectory | notText => simp [FileFault.message, OneLine]
    cases h
    rw [OneLine] at hpath hfault
    simp [QuestFileError.message.eq_def, OneLine, toString, hpath, hfault]
  | ok text =>
    rw [ofText, Logged.value_bind] at h
    cases hparse : (parse text).value with
    | error e' =>
      rw [hparse] at h
      cases h
      have hmessage := oneLine_of_parse_error hparse
      rw [OneLine] at hpath hmessage
      rw [QuestFileError.message.eq_def]
      simp [OneLine, toString, hpath, hmessage]
    | ok q =>
      rw [hparse] at h
      cases h

theorem inLineOrder_of_ofText {path : String} {read : Except FileFault String} {q : QuestFile}
    (h : (ofText path read).value = .ok q) : InLineOrder q.rewards := by
  cases read with
  | error fault => cases h
  | ok text =>
    rw [ofText, Logged.value_bind] at h
    cases hparse : (parse text).value with
    | error e =>
      rw [hparse] at h
      cases h
    | ok q' =>
      rw [hparse] at h
      cases h
      have horder := inLineOrder_of_parse hparse
      exact ⟨horder.ordered, horder.rewardType, horder.formula⟩

end QuestFile

end QuestFormula
