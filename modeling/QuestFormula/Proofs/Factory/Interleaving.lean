import QuestFormula.Proofs.Factory.History
import QuestFormula.Proofs.State.Lookup

/-! Requests to one factory that interleave.  A request checks its descriptor, takes the cell of its
key from the map of the factory, with a vacant one inserted if there is none, and then reads the
cell.  Whoever finds the cell vacant initializes it, and the others wait: initializing counts a
compilation, gets the catalog and fills the cell with the outcome.  Each of these is one step; a
schedule says which caller takes the next one, and a caller that waits or has returned lets its turn
pass.

`System.Sound` relates where every caller is to what every cell holds, and every step preserves
it. -/

namespace QuestFormula

namespace Factory

structure Request where
  descriptor : Descriptor
  state : StateType
  reward : RewardType
deriving DecidableEq

namespace Request

/-- The descriptor is about the types asked for. -/
def Matches (r : Request) : Prop := r.descriptor.state = r.state ∧ r.descriptor.reward = r.reward

instance (r : Request) : Decidable r.Matches := inferInstanceAs (Decidable (_ ∧ _))

/-- The formula with the types asked for. -/
def key (r : Request) : Descriptor := ⟨r.state, r.reward, r.descriptor.formula⟩

def ofKey (d : Descriptor) : Request := ⟨d, d.state, d.reward⟩

theorem Matches.eq_ofKey {r : Request} (h : r.Matches) : r = ofKey r.key := by
  obtain ⟨⟨S, R, formula⟩, S', R'⟩ := r
  obtain ⟨rfl, rfl⟩ : S = S' ∧ R = R' := h
  rfl

end Request

/-- A cell is vacant at first, then busy with the one caller that initializes it, and full for
ever after. -/
inductive Cell where
  | vacant
  | busy (caller : Nat)
  | full (kept : Kept)

/-- What the callers share: the catalogs, a cell for each key in the order of insertion, and the
number of compilations. The keys whose compilation has begun are on record, in order; no step
looks at the record. -/
structure Shared where
  catalogs : CatalogCache
  cells : List (Descriptor × Cell)
  compilations : Nat
  begun : List Descriptor

namespace Shared

def keys (s : Shared) : List Descriptor := s.cells.map Prod.fst

def insert (s : Shared) (d : Descriptor) : Shared :=
  { s with cells := s.cells ++ [(d, .vacant)] }

/-- The cell of a key, inserted vacant if there is none. -/
def entry (s : Shared) (d : Descriptor) : Nat × Shared :=
  match s.keys.idxOf? d with
  | some cell => (cell, s)
  | none => (s.cells.length, s.insert d)

def setCell (s : Shared) (cell : Nat) (content : Cell) : Shared :=
  { s with cells := s.cells.modify cell fun slot => (slot.1, content) }

def count (s : Shared) (d : Descriptor) : Shared :=
  { s with compilations := s.compilations + 1, begun := s.begun ++ [d] }

end Shared

/-- Where a caller is: before the check of its descriptor, before it has a cell, before it reads
the cell, at three places of initializing it, or done. -/
inductive Place (S : StateType) where
  | entering
  | checked
  | holding (cell : Nat)
  | initializing (cell : Nat)
  | counted (cell serial : Nat)
  | catalogued (cell serial : Nat) (c : Catalog S)
  | returned (outcome : Outcome S)

def Place.isReturned {S : StateType} : Place S → Bool
  | returned _ => true
  | _ => false

structure Caller where
  request : Request
  place : Place request.state

/-- The place and the shared state after the next step of the caller, who is known by a number.
There is none while another caller initializes the cell, or after the return. -/
def Caller.next? (number : Nat) (c : Caller) (s : Shared) :
    Option (Place c.request.state × Shared) :=
  match c.place with
  | .entering =>
    if c.request.Matches then some (.checked, s)
    else
      some (.returned (.error (c.request.descriptor.mismatch c.request.state c.request.reward)), s)
  | .checked => some (.holding (s.entry c.request.key).1, (s.entry c.request.key).2)
  | .holding cell =>
    match s.cells[cell]? with
    | some (_, .vacant) => some (.initializing cell, s.setCell cell (.busy number))
    | some (_, .full kept) => some (.returned (kept.outcome c.request.key), s)
    | some (_, .busy _) | none => none
  -- To initialize the cell: count the compilation, get the catalog, compile and fill the cell.
  | .initializing cell => some (.counted cell s.compilations, s.count c.request.key)
  | .counted cell serial =>
    let result := (s.catalogs.get c.request.state).value
    some (.catalogued cell serial result.1, { s with catalogs := result.2 })
  | .catalogued cell serial catalog =>
    let kept := (compile catalog c.request.reward c.request.descriptor.formula serial).value
    some (.holding cell, s.setCell cell (.full kept))
  | .returned _ => none

/-- The callers with what they share. A caller's number is its place in the list. -/
structure System where
  shared : Shared
  callers : List Caller

namespace System

def start (requests : List Request) : System :=
  ⟨⟨.empty, [], 0, []⟩, requests.map fun r => ⟨r, .entering⟩⟩

def step (s : System) (number : Nat) : System :=
  match s.callers[number]? with
  | none => s
  | some c =>
    match c.next? number s.shared with
    | none => s
    | some (place, shared) => ⟨shared, s.callers.set number { c with place }⟩

def run (requests : List Request) (schedule : List Nat) : System :=
  schedule.foldl step (start requests)

end System

/-! ### What every cell and every caller may rely on -/

namespace Place

variable {S : StateType}

/-- The cell that a caller at the place has taken and not returned from. -/
def cell? : Place S → Option Nat
  | holding cell | initializing cell | counted cell _ | catalogued cell _ _ => some cell
  | entering | checked | returned _ => none

/-- The cell that a caller at the place initializes. -/
def initializes? : Place S → Option Nat
  | initializing cell | counted cell _ | catalogued cell _ _ => some cell
  | entering | checked | holding _ | returned _ => none

end Place

theorem Place.cell?_of_initializes? {S : StateType} {p : Place S} {cell : Nat}
    (h : p.initializes? = some cell) : p.cell? = some cell := by
  cases p <;> first | exact h | cases h

theorem Place.cell?_of_isReturned {S : StateType} {p : Place S} (h : p.isReturned) :
    p.cell? = none := by
  cases p <;> first | rfl | cases h

/-- The keys are distinct, and those whose compilation has begun are counted and are among them. -/
structure Shared.Sound (s : Shared) : Prop where
  catalogs : s.catalogs.Sound
  nodup_keys : s.keys.Nodup
  nodup_begun : s.begun.Nodup
  begun_subset : s.begun ⊆ s.keys
  compilations : s.compilations = s.begun.length

/-- The compilation of a key has begun, and its outcome is that of the key alone. -/
def Shared.Compiles (s : Shared) (d : Descriptor) (kept : Kept) : Prop :=
  d ∈ s.begun ∧ kept = d.kept (s.begun.idxOf d)

/-- What a caller at a place relies on. -/
def Caller.Sound (number : Nat) (c : Caller) (s : Shared) : Prop :=
  match c.place with
  | .entering => True
  | .checked => c.request.Matches
  | .holding cell => c.request.Matches ∧ ∃ content, s.cells[cell]? = some (c.request.key, content)
  | .initializing cell => c.request.Matches ∧ c.request.key ∉ s.begun ∧
      s.cells[cell]? = some (c.request.key, .busy number)
  | .counted cell serial => c.request.Matches ∧ c.request.key ∈ s.begun ∧
      s.begun.idxOf c.request.key = serial ∧
      s.cells[cell]? = some (c.request.key, .busy number)
  | .catalogued cell serial catalog => c.request.Matches ∧ c.request.key ∈ s.begun ∧
      s.begun.idxOf c.request.key = serial ∧
      s.cells[cell]? = some (c.request.key, .busy number) ∧ catalog = Catalog.build c.request.state
  | .returned outcome =>
      (c.request.Matches ∧
        ∃ kept, s.Compiles c.request.key kept ∧ outcome = kept.outcome c.request.key) ∨
      ¬c.request.Matches ∧
        outcome = .error (c.request.descriptor.mismatch c.request.state c.request.reward)

namespace System

/-- What the content of the cell of a key says about the callers and the compilations. -/
def CellSound (s : System) (cell : Nat) (d : Descriptor) : Cell → Prop
  | .vacant => d ∉ s.shared.begun ∧
      ∃ (number : Nat) (c : Caller), s.callers[number]? = some c ∧ c.place.cell? = some cell
  | .busy number => ∃ c : Caller, s.callers[number]? = some c ∧ c.place.initializes? = some cell
  | .full kept => s.shared.Compiles d kept

structure Sound (s : System) : Prop where
  shared : s.shared.Sound
  requested : ∀ d ∈ s.shared.keys, .ofKey d ∈ s.callers.map Caller.request
  cells : ∀ (cell : Nat) d content, s.shared.cells[cell]? = some (d, content) →
    s.CellSound cell d content
  callers : ∀ (number : Nat) (c : Caller), s.callers[number]? = some c → c.Sound number s.shared

theorem sound_start (requests : List Request) : (start requests).Sound where
  shared := ⟨CatalogCache.sound_empty, List.nodup_nil, List.nodup_nil, List.nil_subset _, rfl⟩
  requested d h := by simp [start, Shared.keys] at h
  cells cell d content h := by simp [start] at h
  callers number c h := by
    simp only [start, List.getElem?_map, Option.map_eq_some_iff] at h
    obtain ⟨r, -, rfl⟩ := h
    trivial

end System

/-! ### One step -/

theorem Shared.Compiles.mono {s s' : Shared} {d : Descriptor} {kept : Kept}
    (h : s.Compiles d kept) (hbegun : s.begun <+: s'.begun) : s'.Compiles d kept := by
  obtain ⟨hmem, rfl⟩ := h
  exact ⟨hbegun.subset hmem, by rw [hbegun.idxOf_eq_of_mem hmem]⟩

/-- A step of the caller of a number keeps what the others rely on: no cell that another caller
initializes changes, and no key begins to be compiled but one whose cell that caller
initializes. -/
structure Shared.Keeps (number : Nat) (s s' : Shared) : Prop where
  begun : s.begun <+: s'.begun
  fresh : ∀ d ∈ s'.begun, d ∈ s.begun ∨ ∃ cell : Nat, s.cells[cell]? = some (d, .busy number)
  cells : ∀ (cell : Nat) d content, s.cells[cell]? = some (d, content) →
    ∃ content', s'.cells[cell]? = some (d, content') ∧
      ∀ other ≠ number, content = .busy other → content' = .busy other

theorem Shared.Sound.cell_inj {s : Shared} (h : s.Sound) {cell cell' : Nat} {d : Descriptor}
    {content content' : Cell} (hcell : s.cells[cell]? = some (d, content))
    (hcell' : s.cells[cell']? = some (d, content')) : cell = cell' := by
  have hkey : s.keys[cell]? = some d := by rw [keys, List.getElem?_map, hcell]; rfl
  have hkey' : s.keys[cell']? = some d := by rw [keys, List.getElem?_map, hcell']; rfl
  exact (List.getElem?_inj (List.getElem?_eq_some_iff.mp hkey).1 h.nodup_keys).mp
    (hkey.trans hkey'.symm)

/-- A key whose cell the caller does not initialize is as new as before. -/
theorem Shared.Keeps.not_mem_begun {s s' : Shared} {number cell : Nat} {d : Descriptor}
    {content : Cell} (hkeep : s.Keeps number s') (hs : s.Sound)
    (hcell : s.cells[cell]? = some (d, content)) (hcontent : content ≠ .busy number)
    (hnew : d ∉ s.begun) : d ∉ s'.begun := by
  intro hmem
  rcases hkeep.fresh d hmem with hold | ⟨cell', hbusy⟩
  · exact hnew hold
  · -- A key has one cell, so that cell would be busy with the caller.
    obtain rfl := hs.cell_inj hcell hbusy
    rw [hcell] at hbusy
    cases hbusy
    exact hcontent rfl

/-- What another caller relies on outlasts the step. -/
theorem Caller.Sound.keep {number other : Nat} {c : Caller} {s s' : Shared}
    (h : c.Sound other s) (hs : s.Sound) (hkeep : s.Keeps number s') (hne : other ≠ number) :
    c.Sound other s' := by
  obtain ⟨r, place⟩ := c
  have hbusy {cell : Nat} (hcell : s.cells[cell]? = some (r.key, .busy other)) :
      s'.cells[cell]? = some (r.key, .busy other) := by
    obtain ⟨content', hcell', hsame⟩ := hkeep.cells cell _ _ hcell
    rw [hcell', hsame other hne rfl]
  have hidx (hmem : r.key ∈ s.begun) : s'.begun.idxOf r.key = s.begun.idxOf r.key :=
    (hkeep.begun.idxOf_eq_of_mem hmem).symm
  cases place with
  | entering => trivial
  | checked => exact h
  | holding cell =>
    obtain ⟨hmatches, content, hcell⟩ := h
    obtain ⟨content', hcell', -⟩ := hkeep.cells cell _ _ hcell
    exact ⟨hmatches, content', hcell'⟩
  | initializing cell =>
    obtain ⟨hmatches, hnew, hcell⟩ := h
    exact ⟨hmatches, hkeep.not_mem_begun hs hcell (fun h => hne (Cell.busy.inj h)) hnew,
      hbusy hcell⟩
  | counted cell serial =>
    obtain ⟨hmatches, hmem, hserial, hcell⟩ := h
    exact ⟨hmatches, hkeep.begun.subset hmem, (hidx hmem).trans hserial, hbusy hcell⟩
  | catalogued cell serial catalog =>
    obtain ⟨hmatches, hmem, hserial, hcell, hcatalog⟩ := h
    exact ⟨hmatches, hkeep.begun.subset hmem, (hidx hmem).trans hserial, hbusy hcell, hcatalog⟩
  | returned outcome =>
    rcases h with ⟨hmatches, kept, hkept, houtcome⟩ | hmismatch
    · exact .inl ⟨hmatches, kept, hkept.mono hkeep.begun, houtcome⟩
    · exact .inr hmismatch

namespace Shared

variable {s : Shared} {number : Nat}

theorem mem_keys_of_getElem? {cell : Nat} {d : Descriptor} {content : Cell}
    (hcell : s.cells[cell]? = some (d, content)) : d ∈ s.keys :=
  List.mem_map_of_mem (f := Prod.fst) (List.mem_of_getElem? hcell)

theorem Keeps.of_eq {s' : Shared} (hcells : s'.cells = s.cells) (hbegun : s'.begun = s.begun) :
    s.Keeps number s' where
  begun := hbegun ▸ List.prefix_rfl
  fresh _ hd := .inl (hbegun ▸ hd)
  cells _ _ content hcell := ⟨content, hcells ▸ hcell, fun _ _ hbusy => hbusy⟩

theorem keys_insert (s : Shared) (d : Descriptor) : (s.insert d).keys = s.keys ++ [d] := by
  simp [keys, insert]

/-- A key has its cell, or gets a vacant one behind the others. -/
theorem entry_cases (s : Shared) (d : Descriptor) :
    (∃ cell content, s.cells[cell]? = some (d, content) ∧ s.entry d = (cell, s)) ∨
    d ∉ s.keys ∧ s.entry d = (s.cells.length, s.insert d) := by
  rw [entry]
  cases hidx : s.keys.idxOf? d with
  | none => exact .inr ⟨List.idxOf?_eq_none_iff.mp hidx, rfl⟩
  | some cell =>
    obtain ⟨hlt, hd, -⟩ := List.idxOf?_eq_some_iff.mp hidx
    rw [keys, List.length_map] at hlt
    refine .inl ⟨cell, s.cells[cell].2, ?_, rfl⟩
    rw [List.getElem?_eq_getElem hlt, ← hd]
    simp [keys]

theorem Sound.insert (h : s.Sound) {d : Descriptor} (hnew : d ∉ s.keys) :
    (s.insert d).Sound where
  catalogs := h.catalogs
  nodup_keys := by
    rw [keys_insert, ← List.concat_eq_append]
    exact h.nodup_keys.concat hnew
  nodup_begun := h.nodup_begun
  begun_subset := by
    rw [keys_insert]
    exact List.subset_append_of_subset_left [d] h.begun_subset
  compilations := h.compilations

theorem keeps_insert (s : Shared) (number : Nat) (d : Descriptor) :
    s.Keeps number (s.insert d) where
  begun := List.prefix_rfl
  fresh _ hd := .inl hd
  cells cell _ content hcell := by
    refine ⟨content, ?_, fun _ _ hbusy => hbusy⟩
    rw [Shared.insert, List.getElem?_append_left (List.getElem?_eq_some_iff.mp hcell).1, hcell]

theorem keys_setCell (s : Shared) (cell : Nat) (content : Cell) :
    (s.setCell cell content).keys = s.keys := by
  refine List.ext_getElem? fun i => ?_
  simp only [keys, setCell, List.getElem?_map, List.getElem?_modify, Option.map_eq_map,
    Option.map_map]
  congr 1
  funext slot
  simp only [Function.comp_apply]
  split <;> rfl

theorem getElem?_setCell_self {cell : Nat} {d : Descriptor} {old : Cell}
    (hcell : s.cells[cell]? = some (d, old)) (content : Cell) :
    (s.setCell cell content).cells[cell]? = some (d, content) := by
  simp [setCell, hcell]

theorem getElem?_setCell_of_ne (s : Shared) {cell other : Nat} (hne : cell ≠ other)
    (content : Cell) : (s.setCell cell content).cells[other]? = s.cells[other]? := by
  simp [setCell, hne]

theorem Sound.setCell (h : s.Sound) (cell : Nat) (content : Cell) :
    (s.setCell cell content).Sound where
  catalogs := h.catalogs
  nodup_keys := by rw [keys_setCell]; exact h.nodup_keys
  nodup_begun := h.nodup_begun
  begun_subset := by rw [keys_setCell]; exact h.begun_subset
  compilations := h.compilations

/-- Only the caller that initializes a busy cell may set it. -/
theorem keeps_setCell {cell : Nat} {d : Descriptor} {old : Cell}
    (hcell : s.cells[cell]? = some (d, old)) (hold : ∀ other ≠ number, old ≠ .busy other)
    (content : Cell) : s.Keeps number (s.setCell cell content) where
  begun := List.prefix_rfl
  fresh d' hd' := .inl hd'
  cells cell' d' content' hcell' := by
    by_cases hsame : cell = cell'
    · subst hsame
      rw [hcell, Option.some.injEq, Prod.mk.injEq] at hcell'
      obtain ⟨rfl, rfl⟩ := hcell'
      exact ⟨content, getElem?_setCell_self hcell content,
        fun other hne hbusy => absurd hbusy (hold other hne)⟩
    · exact ⟨content', (getElem?_setCell_of_ne s hsame content).trans hcell',
        fun _ _ hbusy => hbusy⟩

theorem Sound.count (h : s.Sound) {d : Descriptor} (hkey : d ∈ s.keys) (hnew : d ∉ s.begun) :
    (s.count d).Sound where
  catalogs := h.catalogs
  nodup_keys := h.nodup_keys
  nodup_begun := by
    rw [Shared.count, ← List.concat_eq_append]
    exact h.nodup_begun.concat hnew
  begun_subset := List.append_subset.mpr ⟨h.begun_subset, List.cons_subset.mpr ⟨hkey, List.nil_subset _⟩⟩
  compilations := by simp [Shared.count, h.compilations]

theorem keeps_count {cell : Nat} {d : Descriptor}
    (hcell : s.cells[cell]? = some (d, .busy number)) : s.Keeps number (s.count d) where
  begun := List.prefix_append _ _
  fresh d' hd' := by
    rcases List.mem_append.mp hd' with hold | hnew
    · exact .inl hold
    · rw [List.mem_singleton.mp hnew]
      exact .inr ⟨cell, hcell⟩
  cells cell' d' content hcell' := ⟨content, hcell', fun _ _ hbusy => hbusy⟩

end Shared

namespace System

variable {s : System} {number : Nat} {c : Caller} {place : Place c.request.state} {shared : Shared}

/-- What a cell says stays true while its content stays, if the caller who moves goes on with what
the cell expects of it. -/
theorem CellSound.keep {cell : Nat} {d : Descriptor} {content : Cell}
    (h : s.CellSound cell d content) (hs : s.shared.Sound)
    (hcell : s.shared.cells[cell]? = some (d, content)) (hc : s.callers[number]? = some c)
    (hkeep : s.shared.Keeps number shared)
    (hholds : content = .vacant → c.place.cell? = some cell → place.cell? = some cell)
    (hinitializes : content = .busy number → c.place.initializes? = some cell →
      place.initializes? = some cell) :
    CellSound ⟨shared, s.callers.set number ⟨c.request, place⟩⟩ cell d content := by
  have hset : (s.callers.set number ⟨c.request, place⟩)[number]? = some ⟨c.request, place⟩ := by
    rw [List.getElem?_set_self (List.getElem?_eq_some_iff.mp hc).1]
  cases content with
  | vacant =>
    obtain ⟨hnew, other, c', hc', hcell'⟩ := h
    refine ⟨hkeep.not_mem_begun hs hcell nofun hnew, ?_⟩
    by_cases hother : other = number
    · subst hother
      rw [hc, Option.some.injEq] at hc'
      subst hc'
      exact ⟨other, _, hset, hholds rfl hcell'⟩
    · exact ⟨other, c', by rw [List.getElem?_set_ne (Ne.symm hother)]; exact hc', hcell'⟩
  | busy other =>
    obtain ⟨c', hc', hcell'⟩ := h
    by_cases hother : other = number
    · subst hother
      rw [hc, Option.some.injEq] at hc'
      subst hc'
      exact ⟨_, hset, hinitializes rfl hcell'⟩
    · exact ⟨c', by rw [List.getElem?_set_ne (Ne.symm hother)]; exact hc', hcell'⟩
  | full kept => exact Shared.Compiles.mono h hkeep.begun

theorem map_request_set (s : System) (hc : s.callers[number]? = some c)
    (place : Place c.request.state) :
    (s.callers.set number ⟨c.request, place⟩).map Caller.request =
      s.callers.map Caller.request := by
  obtain ⟨hlt, rfl⟩ := List.getElem?_eq_some_iff.mp hc
  rw [List.map_set, ← List.getElem_map Caller.request (h := by simpa using hlt),
    List.set_getElem_self]

/-- The turn of a caller keeps the system sound if what it leaves is sound for the caller, keeps
what the others rely on, and every cell is either as it was or is sound as it is now. -/
theorem Sound.advance (h : s.Sound) (hc : s.callers[number]? = some c) (hshared : shared.Sound)
    (hkeep : s.shared.Keeps number shared) (hcaller : Caller.Sound number ⟨c.request, place⟩ shared)
    (hkeys : ∀ d ∈ shared.keys, d ∈ s.shared.keys ∨ c.request = .ofKey d)
    (hcells : ∀ (cell : Nat) d content, shared.cells[cell]? = some (d, content) →
      (s.shared.cells[cell]? = some (d, content) ∧
        (content = .vacant → c.place.cell? = some cell → place.cell? = some cell) ∧
        (content = .busy number → c.place.initializes? = some cell →
          place.initializes? = some cell)) ∨
      CellSound ⟨shared, s.callers.set number ⟨c.request, place⟩⟩ cell d content) :
    Sound ⟨shared, s.callers.set number ⟨c.request, place⟩⟩ where
  shared := hshared
  requested d hd := by
    rw [map_request_set s hc place]
    rcases hkeys d hd with hold | hnew
    · exact h.requested d hold
    · exact hnew ▸ List.mem_map_of_mem (List.mem_of_getElem? hc)
  cells cell d content hcell := by
    rcases hcells cell d content hcell with ⟨hold, hholds, hinitializes⟩ | hnow
    · exact (h.cells cell d content hold).keep h.shared hold hc hkeep hholds hinitializes
    · exact hnow
  callers other c' hc' := by
    by_cases hother : number = other
    · subst hother
      rw [List.getElem?_set_self (List.getElem?_eq_some_iff.mp hc).1, Option.some.injEq] at hc'
      exact hc' ▸ hcaller
    · rw [List.getElem?_set_ne hother] at hc'
      exact (h.callers other c' hc').keep h.shared hkeep (Ne.symm hother)

variable {r : Request}

/-- A turn that changes no cell, by a caller that keeps its cell or needs it no longer. -/
theorem Sound.advance_of_eq {p place : Place r.state} (h : s.Sound)
    (hc : s.callers[number]? = some ⟨r, p⟩) (hshared : shared.Sound)
    (hkeep : s.shared.Keeps number shared) (hcells : shared.cells = s.shared.cells)
    (hcaller : Caller.Sound number ⟨r, place⟩ shared)
    (hholds : ∀ cell d, p.cell? = some cell → s.shared.cells[cell]? = some (d, .vacant) →
      place.cell? = some cell)
    (hinitializes : ∀ cell, p.initializes? = some cell → place.initializes? = some cell) :
    Sound ⟨shared, s.callers.set number ⟨r, place⟩⟩ := by
  refine h.advance hc hshared hkeep hcaller (fun d hd => .inl ?_) fun cell d content hcell => ?_
  · rwa [Shared.keys, hcells] at hd
  · rw [hcells] at hcell
    exact .inl ⟨hcell, fun hvacant hp => hholds cell d hp (hvacant ▸ hcell),
      fun _ hp => hinitializes cell hp⟩

/-- A turn that sets the cell of the caller. -/
theorem Sound.advance_setCell {p place : Place r.state} {cell : Nat} {old content : Cell}
    (h : s.Sound) (hc : s.callers[number]? = some ⟨r, p⟩)
    (hcell : s.shared.cells[cell]? = some (r.key, old))
    (hold : ∀ other ≠ number, old ≠ .busy other) (hp : p.cell? = some cell)
    (hcaller : Caller.Sound number ⟨r, place⟩ (s.shared.setCell cell content))
    (hcontent : CellSound ⟨s.shared.setCell cell content, s.callers.set number ⟨r, place⟩⟩ cell
      r.key content) :
    Sound ⟨s.shared.setCell cell content, s.callers.set number ⟨r, place⟩⟩ := by
  refine h.advance hc (h.shared.setCell cell content) (Shared.keeps_setCell hcell hold content)
    hcaller (fun d hd => .inl ?_) fun cell' d content' hcell' => ?_
  · rwa [Shared.keys_setCell] at hd
  · by_cases hsame : cell = cell'
    · subst hsame
      rw [Shared.getElem?_setCell_self hcell, Option.some.injEq, Prod.mk.injEq] at hcell'
      obtain ⟨rfl, rfl⟩ := hcell'
      exact .inr hcontent
    · rw [Shared.getElem?_setCell_of_ne _ hsame] at hcell'
      have hother : p.cell? ≠ some cell' := fun hp' => hsame (Option.some.inj (hp.symm.trans hp'))
      exact .inl ⟨hcell', fun _ hp' => absurd hp' hother,
        fun _ hp' => absurd (Place.cell?_of_initializes? hp') hother⟩

theorem Sound.enter (h : s.Sound) (hc : s.callers[number]? = some ⟨r, .entering⟩)
    (hmatches : r.Matches) : Sound ⟨s.shared, s.callers.set number ⟨r, .checked⟩⟩ :=
  h.advance_of_eq hc h.shared (.of_eq rfl rfl) rfl hmatches nofun nofun

theorem Sound.refuse (h : s.Sound) (hc : s.callers[number]? = some ⟨r, .entering⟩)
    (hmatches : ¬r.Matches) : Sound ⟨s.shared, s.callers.set number
      ⟨r, .returned (.error (r.descriptor.mismatch r.state r.reward))⟩⟩ :=
  h.advance_of_eq hc h.shared (.of_eq rfl rfl) rfl (.inr ⟨hmatches, rfl⟩) nofun nofun

theorem Sound.take (h : s.Sound) (hc : s.callers[number]? = some ⟨r, .checked⟩) :
    Sound ⟨(s.shared.entry r.key).2,
      s.callers.set number ⟨r, .holding (s.shared.entry r.key).1⟩⟩ := by
  have hmatches : r.Matches := h.callers number _ hc
  rcases s.shared.entry_cases r.key with ⟨cell, content, hcell, hentry⟩ | ⟨hnew, hentry⟩
  · rw [hentry]
    exact h.advance_of_eq hc h.shared (.of_eq rfl rfl) rfl ⟨hmatches, content, hcell⟩ nofun nofun
  · rw [hentry]
    have hlast : (s.shared.insert r.key).cells[s.shared.cells.length]? =
        some (r.key, .vacant) := by simp [Shared.insert]
    refine h.advance hc (h.shared.insert hnew) (s.shared.keeps_insert number r.key)
      ⟨hmatches, .vacant, hlast⟩ (fun d hd => ?_) fun cell d content hcell => ?_
    · rw [Shared.keys_insert, List.mem_append, List.mem_singleton] at hd
      exact hd.imp_right fun hd => hmatches.eq_ofKey.trans (congrArg Request.ofKey hd.symm)
    · rcases Nat.lt_or_ge cell s.shared.cells.length with hlt | hge
      · rw [Shared.insert, List.getElem?_append_left hlt] at hcell
        exact .inl ⟨hcell, nofun, nofun⟩
      · -- The new cell is vacant, and the caller who inserted it holds it.
        obtain rfl : cell = s.shared.cells.length := by
          have hlt := (List.getElem?_eq_some_iff.mp hcell).1
          rw [Shared.insert, List.length_append, List.length_singleton] at hlt
          omega
        rw [hlast] at hcell
        cases hcell
        refine .inr ⟨fun hmem => hnew (h.shared.begun_subset hmem), number,
          ⟨r, .holding s.shared.cells.length⟩, ?_, rfl⟩
        exact List.getElem?_set_self (List.getElem?_eq_some_iff.mp hc).1

theorem Sound.begin {cell : Nat} {d : Descriptor} (h : s.Sound)
    (hc : s.callers[number]? = some ⟨r, .holding cell⟩)
    (hcell : s.shared.cells[cell]? = some (d, .vacant)) :
    Sound ⟨s.shared.setCell cell (.busy number),
      s.callers.set number ⟨r, .initializing cell⟩⟩ := by
  obtain ⟨hmatches, content, hcell'⟩ := h.callers number _ hc
  obtain ⟨rfl, rfl⟩ := Prod.mk.inj (Option.some.inj (hcell.symm.trans hcell'))
  have hnew := (h.cells cell _ _ hcell).1
  refine h.advance_setCell hc hcell nofun rfl
    ⟨hmatches, hnew, Shared.getElem?_setCell_self hcell _⟩ ⟨⟨r, .initializing cell⟩, ?_, rfl⟩
  exact List.getElem?_set_self (List.getElem?_eq_some_iff.mp hc).1

theorem Sound.finish {cell : Nat} {d : Descriptor} {kept : Kept} (h : s.Sound)
    (hc : s.callers[number]? = some ⟨r, .holding cell⟩)
    (hcell : s.shared.cells[cell]? = some (d, .full kept)) :
    Sound ⟨s.shared, s.callers.set number ⟨r, .returned (kept.outcome r.key)⟩⟩ := by
  obtain ⟨hmatches, content, hcell'⟩ := h.callers number _ hc
  obtain ⟨rfl, rfl⟩ := Prod.mk.inj (Option.some.inj (hcell.symm.trans hcell'))
  refine h.advance_of_eq hc h.shared (.of_eq rfl rfl) rfl
    (.inl ⟨hmatches, kept, h.cells cell _ _ hcell, rfl⟩) (fun cell' d hp hvacant => ?_) nofun
  cases hp
  rw [hcell] at hvacant
  cases hvacant

theorem Sound.count {cell : Nat} (h : s.Sound)
    (hc : s.callers[number]? = some ⟨r, .initializing cell⟩) :
    Sound ⟨s.shared.count r.key,
      s.callers.set number ⟨r, .counted cell s.shared.compilations⟩⟩ := by
  obtain ⟨hmatches, hnew, hcell⟩ := h.callers number _ hc
  refine h.advance_of_eq hc (h.shared.count (Shared.mem_keys_of_getElem? hcell) hnew)
    (Shared.keeps_count hcell) rfl
    ⟨hmatches, List.mem_append_right _ (List.mem_singleton_self _), ?_, hcell⟩
    (fun _ _ hp _ => hp) fun _ hp => hp
  show (s.shared.begun ++ [r.key]).idxOf r.key = s.shared.compilations
  rw [List.idxOf_append_of_notMem hnew, List.idxOf_cons_self, Nat.add_zero, h.shared.compilations]

theorem Sound.catalog {cell serial : Nat} (h : s.Sound)
    (hc : s.callers[number]? = some ⟨r, .counted cell serial⟩) :
    Sound ⟨{ s.shared with catalogs := (s.shared.catalogs.get r.state).value.2 },
      s.callers.set number
        ⟨r, .catalogued cell serial (s.shared.catalogs.get r.state).value.1⟩⟩ := by
  obtain ⟨hmatches, hbegun, hserial, hcell⟩ := h.callers number _ hc
  exact h.advance_of_eq hc ⟨h.shared.catalogs.get r.state, h.shared.nodup_keys,
    h.shared.nodup_begun, h.shared.begun_subset, h.shared.compilations⟩ (.of_eq rfl rfl) rfl
    ⟨hmatches, hbegun, hserial, hcell, h.shared.catalogs.get_fst r.state⟩
    (fun _ _ hp _ => hp) fun _ hp => hp

theorem Sound.fill {cell serial : Nat} {catalog : Catalog r.state} (h : s.Sound)
    (hc : s.callers[number]? = some ⟨r, .catalogued cell serial catalog⟩) :
    Sound ⟨s.shared.setCell cell
        (.full (compile catalog r.reward r.descriptor.formula serial).value),
      s.callers.set number ⟨r, .holding cell⟩⟩ := by
  obtain ⟨hmatches, hbegun, hserial, hcell, hcatalog⟩ := h.callers number _ hc
  dsimp only at hserial hcatalog
  subst hserial hcatalog
  exact h.advance_setCell hc hcell (fun other hne hbusy => hne (Cell.busy.inj hbusy).symm) rfl
    ⟨hmatches, _, Shared.getElem?_setCell_self hcell _⟩ ⟨hbegun, rfl⟩

theorem Sound.next (h : s.Sound) (hc : s.callers[number]? = some c)
    (hnext : c.next? number s.shared = some (place, shared)) :
    Sound ⟨shared, s.callers.set number ⟨c.request, place⟩⟩ := by
  obtain ⟨r, p⟩ := c
  cases p with
  | entering =>
    by_cases hmatches : r.Matches
    · cases hnext.symm.trans (if_pos hmatches)
      exact h.enter hc hmatches
    · cases hnext.symm.trans (if_neg hmatches)
      exact h.refuse hc hmatches
  | checked =>
    cases hnext
    exact h.take hc
  | holding cell =>
    simp only [Caller.next?] at hnext
    split at hnext
    · cases hnext
      exact h.begin hc ‹_›
    · cases hnext
      exact h.finish hc ‹_›
    · cases hnext
    · cases hnext
  | initializing cell =>
    cases hnext
    exact h.count hc
  | counted cell serial =>
    cases hnext
    exact h.catalog hc
  | catalogued cell serial catalog =>
    cases hnext
    exact h.fill hc
  | returned outcome => cases hnext

theorem Sound.step (h : s.Sound) (number : Nat) : (s.step number).Sound := by
  rw [System.step]
  cases hc : s.callers[number]? with
  | none => exact h
  | some c =>
    cases hnext : c.next? number s.shared with
    | none => simpa [hnext] using h
    | some move => simpa [hnext] using h.next hc hnext

theorem sound_run (requests : List Request) (schedule : List Nat) :
    (run requests schedule).Sound := by
  induction schedule using List.reverseRecOn with
  | nil => exact sound_start requests
  | append_singleton schedule number ih =>
    rw [run, List.foldl_append]
    exact ih.step number

end System

end Factory

end QuestFormula
