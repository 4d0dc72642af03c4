/-!
Tables: values by names, one for each name.
-/

namespace QuestFormula

structure Table (α : Type) where
  entries : List (String × α)

namespace Table

variable {α : Type}

def empty : Table α := ⟨[]⟩

def get? (t : Table α) (name : String) : Option α := t.entries.lookup name

def contains (t : Table α) (name : String) : Bool := (t.get? name).isSome

def erase (t : Table α) (name : String) : Table α := ⟨t.entries.filter (·.1 != name)⟩

/-- The table with a value for a name, in place of the one it had. -/
def insert (t : Table α) (name : String) (value : α) : Table α :=
  ⟨(name, value) :: (t.erase name).entries⟩

def size (t : Table α) : Nat := t.entries.length

def names (t : Table α) : List String :=
  (t.entries.map (·.1)).mergeSort fun a b => decide (a ≤ b)

@[simp] theorem get?_empty (name : String) : (empty : Table α).get? name = none := rfl

@[simp] theorem get?_erase_self (t : Table α) (name : String) :
    (t.erase name).get? name = none := by
  simp only [get?, erase, List.lookup_eq_none_iff, List.mem_filter]
  intro e ⟨_, h⟩
  simpa using fun same => absurd (Eq.symm same) (bne_iff_ne.mp h)

theorem get?_erase_of_ne (t : Table α) {name other : String} (h : name ≠ other) :
    (t.erase name).get? other = t.get? other := by
  obtain ⟨entries⟩ := t
  induction entries with
  | nil => rfl
  | cons e rest ih =>
    obtain ⟨k, v⟩ := e
    simp only [get?, erase] at ih
    by_cases he : k = name
    · subst he
      simp [get?, erase, List.lookup_cons, ih, beq_eq_false_iff_ne.mpr (Ne.symm h)]
    · simp [get?, erase, he, List.lookup_cons, ih]

@[simp] theorem get?_insert_self (t : Table α) (name : String) (value : α) :
    (t.insert name value).get? name = some value := by
  simp [get?, insert]

theorem get?_insert_of_ne (t : Table α) {name other : String} (value : α) (h : name ≠ other) :
    (t.insert name value).get? other = t.get? other := by
  rw [← t.get?_erase_of_ne h]
  simp [get?, insert, List.lookup_cons, beq_eq_false_iff_ne.mpr (Ne.symm h)]

end Table

end QuestFormula
