import QuestFormula.Formula.Bound

/-!
Code for bound expressions. What has no slot is computed while compiling, and an operation on two
slots, or on a slot and a constant, is one instruction. Code runs on a frame of slot values.
-/

namespace QuestFormula

/-- Code that computes a number from a frame. -/
inductive Code where
  | const (value : Float)
  | slot (index : Nat)
  | slotSlot (op : Operator) (left right : Nat)
  | slotConst (op : Operator) (left : Nat) (right : Float)
  | constSlot (op : Operator) (left : Float) (right : Nat)
  | binary (op : Operator) (left right : Code)
  | negate (operand : Code)
deriving DecidableEq

/-- The number of slots that a frame holds in place. -/
def inlineSlots : Nat := 8

/-- The values of the slots while code runs: a few in cells of fixed number, or any number in an
array. -/
inductive Frame where
  | small (cells : Vector Float inlineSlots) (count : Nat)
  | large (cells : Array Float)

namespace Frame

def get? : Frame → Nat → Option Float
  | small cells count, index => if index < count then cells[index]? else none
  | large cells, index => cells[index]?

/-- The value of a slot. Code never asks for a slot that its frame does not have. -/
def get (f : Frame) (index : Nat) : Float := (f.get? index).getD 0

end Frame

namespace Code

/-- The number that code computes. -/
def run (frame : Frame) : Code → Float
  | const value => value
  | slot index => frame.get index
  | slotSlot op left right => op.apply (frame.get left) (frame.get right)
  | slotConst op left right => op.apply (frame.get left) right
  | constSlot op left right => op.apply left (frame.get right)
  | binary op left right => op.apply (run frame left) (run frame right)
  | negate operand => -run frame operand

/-- How many operations were computed while compiling, and how many became one instruction. -/
structure Savings where
  folded : Nat
  specialized : Nat
deriving DecidableEq

instance : Add Savings := ⟨fun a b => ⟨a.folded + b.folded, a.specialized + b.specialized⟩⟩

/-- The code of an operation on two pieces of code, and what it saves. -/
def combine (op : Operator) : Code → Code → Code × Savings
  | const a, const b => (const (op.apply a b), ⟨1, 0⟩)
  | slot i, slot j => (slotSlot op i j, ⟨0, 1⟩)
  | slot i, const b => (slotConst op i b, ⟨0, 1⟩)
  | const a, slot j => (constSlot op a j, ⟨0, 1⟩)
  | left, right => (binary op left right, ⟨0, 0⟩)

/-- The code of a negation, and what it saves. -/
def negated : Code → Code × Savings
  | const a => (const (-a), ⟨1, 0⟩)
  | operand => (negate operand, ⟨0, 0⟩)

/-- The code of a bound expression, and what compiling saved. -/
def ofExpr : BoundExpr → Code × Savings
  | .literal value => (const value, ⟨0, 0⟩)
  | .slot index => (slot index, ⟨0, 0⟩)
  | .binary op left right =>
    let l := ofExpr left
    let r := ofExpr right
    let whole := combine op l.1 r.1
    (whole.1, l.2 + r.2 + whole.2)
  | .negate operand =>
    let inner := ofExpr operand
    let whole := negated inner.1
    (whole.1, inner.2 + whole.2)

end Code

end QuestFormula
