import QuestFormula.Number.Numeric

/-!
Quest parameters: quantities that may stay open until a quest is handed out, as a kill count rolled
from a range or a destination picked from a list. A parameter has a value at all times, and once it
is resolved the value no longer changes.
-/

namespace QuestFormula

/-- A quantity that may be open: fixed, in a range with both ends included, or one of several
values, where `selected` is the index of the chosen one. -/
inductive Parameter (α : Type) where
  | constant (value : α)
  | range (low high : α) (rolled : Option α)
  | choice (values : List α) (selected : Option UInt64)
deriving DecidableEq

namespace Parameter

variable {α : Type}

/-- The value can no longer change. -/
def isResolved : Parameter α → Bool
  | constant _ => true
  | range _ _ rolled => rolled.isSome
  | choice values selected => selected.any fun index => index.toNat < values.length

/-- The value now: of an open range the low end, of an open choice the first value, and of a choice
without values the default. -/
def value [Inhabited α] : Parameter α → α
  | constant value => value
  | range low _ rolled => rolled.getD low
  | choice values selected =>
    match selected.bind fun index => values[index.toNat]? with
    | some value => value
    | none => values.head?.getD default

def ofRange (low high : α) : Parameter α := range low high none

def ofChoice (values : List α) : Parameter α := choice values none

instance [Inhabited α] : Inhabited (Parameter α) := ⟨constant default⟩

/-- Two lists have as many items and the items are the same in order. -/
def sameItems (same : α → α → Bool) : List α → List α → Bool
  | [], [] => true
  | a :: as, b :: bs => same a b && sameItems same as bs
  | _, _ => false

/-- Two parameters have the same form and the same parts. -/
def same (eq : α → α → Bool) : Parameter α → Parameter α → Bool
  | constant a, constant b => eq a b
  | range low high rolled, range low' high' rolled' =>
    eq low low' && eq high high' && sameItems eq rolled.toList rolled'.toList
  | choice values selected, choice values' selected' =>
    sameItems eq values values' && selected == selected'
  | _, _ => false

def toFloat (t : NumericType) (p : Parameter t.Value) : Float := t.toFloat p.value

end Parameter

end QuestFormula
