import QuestFormula.Json.Printer
import QuestFormula.Json.Reader
import QuestFormula.Parameter.Value

/-!
Quest parameters of integer types as JSON: an object with one member, named for the form of the
parameter. The fields of a range and of a choice are members by name or the items of an array;
by name, other members are passed over, no field may be given twice, and only what is open may be
left out.
-/

namespace QuestFormula.Parameter

variable {t : IntegerType}

def encodeValue (v : t.Value) : Json := .ofInt v.val

/-- A part that may be open, as JSON. -/
def encodeOption {α : Type} (encode : α → Json) : Option α → Json
  | none => .null
  | some a => encode a

def encodeIndex (index : UInt64) : Json := .ofNat index.toNat

def encode : Parameter t.Value → Json
  | constant value => .record [("Constant", encodeValue value)]
  | range low high rolled =>
    .record [("Range", .record [("min", encodeValue low), ("max", encodeValue high),
      ("rolled", encodeOption encodeValue rolled)])]
  | choice values selected =>
    .record [("Choice", .record [("values", .array (values.map encodeValue)),
      ("selected", encodeOption encodeIndex selected)])]

def toText (p : Parameter t.Value) : String := (encode p).compactString

def decodeValue (t : IntegerType) : Json → Option t.Value
  | .number written => (Json.integer? written).bind t.ofInt?
  | _ => none

/-- A part that may be open: null if it is. -/
def decodeOption {α : Type} (decode : Json → Option α) : Json → Option (Option α)
  | .null => some none
  | j => (decode j).map some

def decodeIndex (j : Json) : Option UInt64 :=
  (decodeValue .usize j).map fun v => UInt64.ofNat v.val.toNat

def decodeValues (t : IntegerType) : Json → Option (List t.Value)
  | .array items => items.mapM (decodeValue t)
  | _ => none

/-- The members of an object by the texts of their names; none if some name has no text. -/
def namedMembers (members : List (List Char × Json)) : Option (List (String × Json)) :=
  members.mapM fun (key, value) => (Json.text? key).map (·, value)

/-- The value of the only member with a name: none if there is more than one, and an absent value if
there is none. -/
def onlyMember (name : String) (members : List (String × Json)) : Option (Option Json) :=
  match members.filter (·.1 = name) with
  | [] => some none
  | [(_, value)] => some (some value)
  | _ => none

def decodeRange (t : IntegerType) (low high rolled : Json) : Option (Parameter t.Value) := do
  return range (← decodeValue t low) (← decodeValue t high)
    (← decodeOption (decodeValue t) rolled)

def decodeChoice (t : IntegerType) (values selected : Json) : Option (Parameter t.Value) := do
  return choice (← decodeValues t values) (← decodeOption decodeIndex selected)

/-- The parameter of the form that a member names. -/
def decodeForm (t : IntegerType) (form : String) (j : Json) : Option (Parameter t.Value) :=
  if form = "Constant" then (decodeValue t j).map constant
  else if form = "Range" then
    match j with
    | .array [low, high, rolled] => decodeRange t low high rolled
    | .object members => do
      let members ← namedMembers members
      decodeRange t (← ← onlyMember "min" members) (← ← onlyMember "max" members)
        ((← onlyMember "rolled" members).getD .null)
    | _ => none
  else if form = "Choice" then
    match j with
    | .array [values, selected] => decodeChoice t values selected
    | .object members => do
      let members ← namedMembers members
      decodeChoice t (← ← onlyMember "values" members)
        ((← onlyMember "selected" members).getD .null)
    | _ => none
  else none

def decode (t : IntegerType) : Json → Option (Parameter t.Value)
  | .object [(key, value)] => do decodeForm t (← Json.text? key) value
  | _ => none

def ofText? (t : IntegerType) (text : String) : Option (Parameter t.Value) :=
  (Json.read? text).bind (decode t)

end QuestFormula.Parameter
