/-!
Memos, which keep values by keys, and erased values, whose type is known only through an index that
is kept with them.
-/

namespace QuestFormula

/-- Values by keys, the latest first. -/
structure Memo (κ α : Type) where
  entries : List (κ × α)

namespace Memo

variable {κ α : Type}

def empty : Memo κ α := ⟨[]⟩

def size (m : Memo κ α) : Nat := m.entries.length

def keys (m : Memo κ α) : List κ := m.entries.map Prod.fst

def add (m : Memo κ α) (k : κ) (v : α) : Memo κ α := ⟨(k, v) :: m.entries⟩

@[simp] theorem length_keys (m : Memo κ α) : m.keys.length = m.size := List.length_map _

@[simp] theorem keys_empty : (empty : Memo κ α).keys = [] := rfl

@[simp] theorem keys_add (m : Memo κ α) (k : κ) (v : α) : (m.add k v).keys = k :: m.keys := rfl

variable [DecidableEq κ]

def find? (m : Memo κ α) (k : κ) : Option α := m.entries.lookup k

@[simp] theorem find?_empty (k : κ) : (empty : Memo κ α).find? k = none := rfl

@[simp] theorem find?_add_self (m : Memo κ α) (k : κ) (v : α) : (m.add k v).find? k = some v := by
  simp [find?, add]

theorem find?_add_of_ne (m : Memo κ α) {k k' : κ} (v : α) (h : k ≠ k') :
    (m.add k v).find? k' = m.find? k' := by
  simp [find?, add, List.lookup_cons, beq_eq_false_iff_ne.mpr (Ne.symm h)]

@[simp] theorem find?_eq_none_iff {m : Memo κ α} {k : κ} : m.find? k = none ↔ k ∉ m.keys := by
  simp only [find?, keys, List.lookup_eq_none_iff, List.mem_map, not_exists, not_and, bne_iff_ne]
  exact ⟨fun h e he hk => h e he hk.symm, fun h e he hk => h e he hk.symm⟩

end Memo

/-- A value of a family of types, with the index of its type. -/
structure Erased {κ : Type} (β : κ → Type) where
  index : κ
  value : β index

namespace Erased

variable {κ : Type} {β : κ → Type} [DecidableEq κ]

/-- The value at the type of an index, if its type is that one. -/
def downcast? (e : Erased β) (k : κ) : Option (β k) :=
  if h : e.index = k then some (h ▸ e.value) else none

@[simp] theorem downcast?_mk (k : κ) (v : β k) : (⟨k, v⟩ : Erased β).downcast? k = some v :=
  dif_pos rfl

end Erased

end QuestFormula
