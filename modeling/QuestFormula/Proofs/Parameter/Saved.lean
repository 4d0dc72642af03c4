import QuestFormula.Parameter.Stored
import QuestFormula.Proofs.Json.ReadBack

/-! Quest parameters that are saved and loaded.  What a parameter is saved as is a value that the JSON
reader gives back, and each part of it is decoded to what it was encoded from, an integer with all its
digits; so loading gives the parameter that was saved, and the text tells all parameters of a type
apart.  `written` is that text. -/

namespace QuestFormula.Parameter

open Json

variable {t : IntegerType}

/-! ### Parts -/

theorem ofInt?_val (v : t.Value) : t.ofInt? v.val = some v :=
  dif_pos ⟨v.low_le, v.le_high⟩

theorem decodeValue_encodeValue (v : t.Value) : decodeValue t (encodeValue v) = some v := by
  rw [encodeValue, ofInt_eq, decodeValue, integer?_integerText, Option.bind_some, ofInt?_val]

theorem encodeIndex_eq (index : UInt64) : encodeIndex index = ofInt index.toNat := by
  rw [encodeIndex, ofInt_eq, integerText, if_neg (by omega)]
  rfl

theorem decodeIndex_encodeIndex (index : UInt64) : decodeIndex (encodeIndex index) = some index := by
  have hhigh : (index.toNat : ℤ) ≤ IntegerType.usize.high := by
    have hbound : index.toNat < 2 ^ 64 := index.toNat_lt
    rw [show IntegerType.usize.high = 2 ^ 64 - 1 from rfl]
    omega
  have hvalue := ofInt?_val (t := .usize) ⟨index.toNat, Int.natCast_nonneg _, hhigh⟩
  rw [encodeIndex_eq, ofInt_eq, decodeIndex, decodeValue, integer?_integerText, Option.bind_some,
    hvalue]
  simp

theorem decodeOption_encodeOption {α : Type} {encode : α → Json} {decode : Json → Option α}
    (h : ∀ a, decode (encode a) = some a) (hnull : ∀ a, encode a ≠ .null) (part : Option α) :
    decodeOption decode (encodeOption encode part) = some part := by
  cases part with
  | none => rfl
  | some a =>
    rw [encodeOption, decodeOption, h]
    · rfl
    · exact hnull a

theorem decodeValues_encode (values : List t.Value) :
    decodeValues t (.array (values.map encodeValue)) = some values := by
  rw [decodeValues]
  induction values with
  | nil => rfl
  | cons v values ih =>
    rw [List.map_cons, List.mapM_cons, decodeValue_encodeValue, ih]
    rfl

/-! ### Records -/

/-- A plain name is read from what it is written as. -/
theorem text?_flatMap_escapeChar {name : String} (h : IsPlainName name) :
    text? (name.toList.flatMap escapeChar) = some name := by
  rw [flatMap_escapeChar_of_isPlain h, text?_of_isPlain h, String.ofList_toList]

theorem namedMembers_record {members : List (String × Json)}
    (h : ∀ member ∈ members, IsPlainName member.1) :
    namedMembers (members.map fun member => (member.1.toList.flatMap escapeChar, member.2)) =
      some members := by
  rw [namedMembers]
  induction members with
  | nil => rfl
  | cons member members ih =>
    have hrest := ih fun member hmem => h member (List.mem_cons_of_mem _ hmem)
    rw [List.map_cons, List.mapM_cons, hrest]
    simp only [text?_flatMap_escapeChar (h member List.mem_cons_self)]
    rfl

theorem isWritten_record {members : List (String × Json)}
    (h : ∀ member ∈ members, IsPlainName member.1) (hvalues : ∀ member ∈ members, IsWritten member.2) :
    IsWritten (.record members) := by
  refine .object (fun written hmem => ?_) fun written hmem => ?_
  · obtain ⟨member, hmember, rfl⟩ := List.mem_map.mp hmem
    rw [flatMap_escapeChar_of_isPlain (h member hmember)]
    exact h member hmember
  · obtain ⟨member, hmember, rfl⟩ := List.mem_map.mp hmem
    exact hvalues member hmember

theorem decode_record {form : String} (h : IsPlainName form) (j : Json) :
    decode t (.record [(form, j)]) = decodeForm t form j := by
  rw [record, List.map_singleton, decode, text?_flatMap_escapeChar h]
  rfl

theorem decodeForm_constant (j : Json) :
    decodeForm t "Constant" j = (decodeValue t j).map constant := by
  rw [decodeForm.eq_def, if_pos rfl]

theorem decodeForm_range {members : List (String × Json)}
    (h : ∀ member ∈ members, IsPlainName member.1) :
    decodeForm t "Range" (.record members) = (do
      decodeRange t (← ← onlyMember "min" members) (← ← onlyMember "max" members)
        ((← onlyMember "rolled" members).getD .null)) := by
  rw [decodeForm.eq_def, if_neg (by decide), if_pos rfl]
  simp only [record, namedMembers_record h]
  rfl

theorem decodeForm_choice {members : List (String × Json)}
    (h : ∀ member ∈ members, IsPlainName member.1) :
    decodeForm t "Choice" (.record members) = (do
      decodeChoice t (← ← onlyMember "values" members)
        ((← onlyMember "selected" members).getD .null)) := by
  rw [decodeForm.eq_def, if_neg (by decide), if_neg (by decide), if_pos rfl]
  simp only [record, namedMembers_record h]
  rfl

theorem isPlain_names : ∀ name ∈ ["Constant", "Range", "Choice", "min", "max", "rolled", "values",
    "selected"], IsPlainName name := by
  decide +kernel

/-! ### Parameters -/

theorem isWritten_encodeOption {α : Type} {encode : α → Json} (h : ∀ a, IsWritten (encode a))
    (part : Option α) : IsWritten (encodeOption encode part) := by
  cases part with
  | none => exact .null
  | some a => exact h a

theorem isWritten_encodeValue (v : t.Value) : IsWritten (encodeValue v) := .integer v.val

theorem isWritten_encodeIndex (index : UInt64) : IsWritten (encodeIndex index) := by
  rw [encodeIndex_eq]
  exact .integer _

theorem isWritten_encode (p : Parameter t.Value) : IsWritten (encode p) := by
  have hname {name : String} := isPlain_names name
  cases p with
  | constant value =>
    refine isWritten_record ?_ ?_ <;> simp [hname, isWritten_encodeValue]
  | range low high rolled =>
    have hfields : IsWritten (.record [("min", encodeValue low), ("max", encodeValue high),
        ("rolled", encodeOption encodeValue rolled)]) := by
      refine isWritten_record ?_ ?_ <;>
        simp [hname, isWritten_encodeValue, isWritten_encodeOption]
    refine isWritten_record ?_ ?_ <;> simp [hname, hfields]
  | choice values selected =>
    have hvalues : IsWritten (.array (values.map encodeValue)) := by
      refine .array fun item hitem => ?_
      obtain ⟨v, -, rfl⟩ := List.mem_map.mp hitem
      exact isWritten_encodeValue v
    have hfields : IsWritten (.record [("values", .array (values.map encodeValue)),
        ("selected", encodeOption encodeIndex selected)]) := by
      refine isWritten_record ?_ ?_ <;>
        simp [hname, hvalues, isWritten_encodeIndex, isWritten_encodeOption]
    refine isWritten_record ?_ ?_ <;> simp [hname, hfields]

theorem decode_encode (p : Parameter t.Value) : decode t (encode p) = some p := by
  have hname {name : String} := isPlain_names name
  cases p with
  | constant value =>
    rw [encode, decode_record (hname (by simp)), decodeForm_constant, decodeValue_encodeValue]
    rfl
  | range low high rolled =>
    rw [encode, decode_record (hname (by simp)), decodeForm_range (by simp [hname])]
    have hrolled : decodeOption (decodeValue t) (encodeOption encodeValue rolled) = some rolled :=
      decodeOption_encodeOption decodeValue_encodeValue nofun rolled
    simp [onlyMember, decodeRange, decodeValue_encodeValue, hrolled]
  | choice values selected =>
    rw [encode, decode_record (hname (by simp)), decodeForm_choice (by simp [hname])]
    have hselected : decodeOption decodeIndex (encodeOption encodeIndex selected) = some selected :=
      decodeOption_encodeOption decodeIndex_encodeIndex nofun selected
    simp [onlyMember, decodeChoice, decodeValues_encode, hselected]

theorem ofText?_toText (p : Parameter t.Value) : ofText? t p.toText = some p := by
  rw [ofText?, toText, (isWritten_encode p).read?_compactString, Option.bind_some, decode_encode]

/-! ### The text of a parameter -/

/-- The text of a parameter: its form, and the fields of the form by name and in order, those that
are open as null. -/
def written : Parameter t.Value → String
  | constant value => recordText [("Constant", toString value.val)]
  | range low high rolled =>
    recordText [("Range", recordText [("min", toString low.val), ("max", toString high.val),
      ("rolled", (rolled.map fun v => toString v.val).getD "null")])]
  | choice values selected =>
    recordText [("Choice", recordText [("values", arrayText (values.map fun v => toString v.val)),
      ("selected", (selected.map fun index => toString index.toNat).getD "null")])]

theorem compactString_encodeValue (v : t.Value) :
    (encodeValue v).compactString = toString v.val :=
  compactString_ofInt v.val

theorem compactString_encodeIndex (index : UInt64) :
    (encodeIndex index).compactString = toString index.toNat := by
  rw [encodeIndex_eq, compactString_ofInt]
  rfl

theorem compactString_encodeOption {α : Type} {encode : α → Json} {text : α → String}
    (h : ∀ a, (encode a).compactString = text a) (part : Option α) :
    (encodeOption encode part).compactString = (part.map text).getD "null" := by
  cases part with
  | none => rfl
  | some a => exact h a

theorem toText_eq_written (p : Parameter t.Value) : p.toText = p.written := by
  have hname {name : String} := isPlain_names name
  cases p with
  | constant value =>
    rw [toText, encode, written, compactString_record (by simp [hname])]
    simp only [List.map_cons, List.map_nil, compactString_encodeValue]
  | range low high rolled =>
    rw [toText, encode, written, compactString_record (by simp [hname])]
    simp only [List.map_cons, List.map_nil]
    rw [compactString_record (by simp [hname])]
    simp only [List.map_cons, List.map_nil, compactString_encodeValue,
      compactString_encodeOption compactString_encodeValue]
  | choice values selected =>
    have hvalues : (values.map encodeValue).map compactString =
        values.map fun v => toString v.val := by
      rw [List.map_map]
      exact List.map_congr_left fun v _ => compactString_encodeValue v
    rw [toText, encode, written, compactString_record (by simp [hname])]
    simp only [List.map_cons, List.map_nil]
    rw [compactString_record (by simp [hname])]
    simp only [List.map_cons, List.map_nil, compactString_array, hvalues,
      compactString_encodeOption compactString_encodeIndex]

/-- A parameter is saved as the text of its form and fields, and that text gives it back, so with
the value it had, as far resolved, and counting for as much in a formula.  No two parameters are
saved as one text. -/
theorem saved_text_round_trip (p : Parameter t.Value) :
    p.toText = p.written ∧
      ofText? t p.toText = some p ∧
      ((ofText? t p.toText).map value = some p.value ∧
        (ofText? t p.toText).map isResolved = some p.isResolved ∧
        (ofText? t p.toText).map (toFloat (.integer t)) = some (p.toFloat (.integer t))) ∧
      ∀ q : Parameter t.Value, p.toText = q.toText ↔ p = q := by
  have hload := ofText?_toText p
  refine ⟨toText_eq_written p, hload, ?_, fun q => ⟨fun h => ?_, congrArg toText⟩⟩
  · rw [hload]
    exact ⟨rfl, rfl, rfl⟩
  · have hread : some p = some q := by
      rw [← hload, h, ofText?_toText q]
    exact Option.some.inj hread

example : (range ⟨5, by decide, by decide⟩ ⟨10, by decide, by decide⟩ none :
      Parameter IntegerType.u32.Value).toText =
    "\x7b\"Range\":\x7b\"min\":5,\"max\":10,\"rolled\":null\x7d\x7d" := by
  decide

end QuestFormula.Parameter
