import QuestFormula.Log.Logged
import QuestFormula.State.Declaration
import QuestFormula.Text.Quoted

/-!
The catalog of a state type: the members that its formulas may name, the nearest types first, and
an index from names to them. Of two bindings, one is more derived if its type lies on the way to
the type of the other.
-/

namespace QuestFormula

/-- A member that formulas on a state type may name. -/
abbrev Binding (S : StateType) : Type := Access S.declarations

namespace Binding

variable {S : StateType}

/-- The types on the way to the member, from the state type to the declaring one. -/
def types (b : Binding S) : List String := Access.lineage S.name b

def declaringType (b : Binding S) : String := b.types.getLast?.getD S.name

/-- The number of bases on the way to the member. -/
def depth (b : Binding S) : Nat := b.types.length - 1

/-- The types on the way to the member are the first of those on the way to the other, and not
all of them. -/
def isMoreDerivedThan (b other : Binding S) : Bool :=
  decide (b.types.length < other.types.length) && b.types.isPrefixOf other.types

/-- The declaring type and the member. -/
def qualifiedName (b : Binding S) : String := s!"{b.declaringType}::{b.member.name}"

/-- The member in a state, if it has a number. -/
def read? (b : Binding S) (state : S.State) : Option Float := b.reader?.map fun read => read state

def debug (b : Binding S) : String :=
  "VariableBinding \x7b name: " ++ quoted b.member.name ++
    ", alias: " ++ quotedOption b.member.otherName ++
    ", type_name: " ++ quoted b.member.typeName ++
    ", kind: " ++ b.member.type.reduction.label ++
    ", declared_by: " ++ quoted b.declaringType ++ " \x7d"

end Binding

/-- The slots of each name, by the first use of the names. -/
abbrev NameIndex := List (String × List Nat)

namespace NameIndex

def add (name : String) (slot : Nat) : NameIndex → NameIndex
  | [] => [(name, [slot])]
  | (known, slots) :: rest =>
    if known = name then (known, slots ++ [slot]) :: rest else (known, slots) :: add name slot rest

def slots (name : String) : NameIndex → List Nat
  | [] => []
  | (known, slots) :: rest => if known = name then slots else NameIndex.slots name rest

/-- The index of members that occupy the slots from `slot` on. -/
def ofMembers (slot : Nat) (index : NameIndex) : List Member → NameIndex
  | [] => index
  | m :: rest =>
    ofMembers (slot + 1) (m.names.foldl (fun index name => index.add name slot) index) rest

end NameIndex

/-- The bindings of a state type, each in a slot, and their names. -/
structure Catalog (S : StateType) where
  bindings : List (Binding S)
  index : NameIndex

namespace Catalog

variable {S : StateType}

/-- Bindings by their depth; those of one depth keep their order. -/
def byDepth (height : Nat) (bindings : List (Binding S)) : List (Binding S) :=
  (List.range (height + 1)).flatMap fun depth => bindings.filter (·.depth = depth)

/-- The catalog of a state type: all members that are not excluded. -/
def build (S : StateType) : Catalog S :=
  let visible := S.declarations.accesses.filter fun a => !a.member.excluded
  let bindings := byDepth S.declarations.height visible
  ⟨bindings, NameIndex.ofMembers 0 [] (bindings.map Access.member)⟩

def built (c : Catalog S) : Event := .catalogBuilt S.name c.bindings.length c.index.length

def names (c : Catalog S) : List String := c.bindings.flatMap fun b => b.member.names

/-- The slots of the bindings that answer to a name. -/
def candidateSlots (c : Catalog S) (name : String) : List Nat := c.index.slots name

def candidates (c : Catalog S) (name : String) : List (Binding S) :=
  (c.candidateSlots name).filterMap fun slot => c.bindings[slot]?

/-- The binding that a name in a formula refers to: the one that is more derived than all others
that answer to the name, if it can be read. -/
def lookup (c : Catalog S) (formula name : String) : Except FormulaError (Binding S) :=
  let candidates := c.candidates name
  match candidates.filter fun b => !candidates.any (·.isMoreDerivedThan b) with
  | [] => .error (.unknownVariable formula name S.name)
  | [b] =>
    if b.member.type.reduction = .notNumeric then
      .error (.nonNumericVariable formula name b.member.typeName)
    else .ok b
  | bs => .error (.ambiguousVariable formula name (bs.map (·.qualifiedName)))

end Catalog

end QuestFormula
