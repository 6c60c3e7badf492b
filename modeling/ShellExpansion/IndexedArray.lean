/-! # Indexed arrays

An `IndexedArray` holds texts at natural indices, with gaps allowed; its entries stand in
ascending order of their indices. Main statements: `get?_insert`, `get?_erase`. -/

namespace ShellExpansion

/-- Texts at natural indices, in ascending order. -/
structure IndexedArray where
  entries : List (Nat × String)
  ascending : (entries.map Prod.fst).Pairwise (· < ·)
deriving DecidableEq, Repr

namespace IndexedArray

/-- The array without elements. -/
def empty : IndexedArray := ⟨[], List.Pairwise.nil⟩

instance : Inhabited IndexedArray := ⟨empty⟩

/-- The array with one element, at index zero. -/
def singleton (value : String) : IndexedArray := ⟨[(0, value)], List.pairwise_singleton _ _⟩

/-- The indices, in ascending order. -/
def indices (a : IndexedArray) : List Nat := a.entries.map Prod.fst

/-- The values, in ascending order of their indices. -/
def values (a : IndexedArray) : List String := a.entries.map Prod.snd

/-- The element at an index. -/
def get? (a : IndexedArray) (index : Nat) : Option String := a.entries.lookup index

/-- One more than the largest index, and zero for an array without elements. -/
def bound (a : IndexedArray) : Nat :=
  match a.entries.getLast? with
  | some entry => entry.1 + 1
  | none => 0

/-- An index that may count from the end of the array, counted from its start. -/
def fromEnd (a : IndexedArray) (index : Int) : Int :=
  if 0 ≤ index then index else a.bound + index

/-- The element at an index that may count from the end. -/
def getFromEnd? (a : IndexedArray) (index : Int) : Option String :=
  match a.fromEnd index with
  | .ofNat n => a.get? n
  | .negSucc _ => none

/-- The entries with the value at an index written. -/
def insertEntry (index : Nat) (value : String) : List (Nat × String) → List (Nat × String)
  | [] => [(index, value)]
  | entry :: rest =>
    if index < entry.1 then (index, value) :: entry :: rest
    else if entry.1 = index then (index, value) :: rest
    else entry :: insertEntry index value rest

theorem mem_map_fst_insertEntry {index i : Nat} {value : String}
    {entries : List (Nat × String)} :
    i ∈ (insertEntry index value entries).map Prod.fst ↔
      i = index ∨ i ∈ entries.map Prod.fst := by
  induction entries with
  | nil => simp [insertEntry]
  | cons entry rest ih => grind [insertEntry]

theorem pairwise_insertEntry {index : Nat} {value : String} {entries : List (Nat × String)}
    (h : (entries.map Prod.fst).Pairwise (· < ·)) :
    ((insertEntry index value entries).map Prod.fst).Pairwise (· < ·) := by
  induction entries with
  | nil => simp [insertEntry]
  | cons entry rest ih =>
    simp only [List.map_cons, List.pairwise_cons] at h
    unfold insertEntry
    split
    · next hlt =>
      simp only [List.map_cons, List.pairwise_cons, List.mem_cons]
      refine ⟨fun i hi => ?_, h.1, h.2⟩
      rcases hi with rfl | hi
      · exact hlt
      · exact Nat.lt_trans hlt (h.1 i hi)
    · split
      · next heq =>
        simp only [List.map_cons, List.pairwise_cons]
        exact ⟨fun i hi => heq ▸ h.1 i hi, h.2⟩
      · simp only [List.map_cons, List.pairwise_cons]
        refine ⟨fun i hi => ?_, ih h.2⟩
        rcases mem_map_fst_insertEntry.mp hi with rfl | hi
        · omega
        · exact h.1 i hi

/-- The array with a value written at an index. -/
def insert (a : IndexedArray) (index : Nat) (value : String) : IndexedArray :=
  ⟨insertEntry index value a.entries, pairwise_insertEntry a.ascending⟩

/-- The array without the element at an index. -/
def erase (a : IndexedArray) (index : Nat) : IndexedArray where
  entries := a.entries.filter (·.1 ≠ index)
  ascending := a.ascending.sublist (List.filter_sublist.map Prod.fst)

/-- The values at the given index and above, in ascending order of their indices. -/
def valuesFrom (a : IndexedArray) (start : Int) : List String :=
  (a.entries.filter fun entry => start ≤ entry.1).map Prod.snd

theorem get?_insert (a : IndexedArray) (index other : Nat) (value : String) :
    (a.insert index value).get? other =
      if other = index then some value else a.get? other := by
  have aux (entries : List (Nat × String)) (h : (entries.map Prod.fst).Pairwise (· < ·)) :
      (insertEntry index value entries).lookup other =
        if other = index then some value else entries.lookup other := by
    induction entries with
    | nil =>
      by_cases h : other = index
      · simp [insertEntry, h]
      · simp [insertEntry, List.lookup_cons, h, beq_false_of_ne h]
    | cons entry rest ih =>
      simp only [List.map_cons, List.pairwise_cons] at h
      have := ih h.2
      by_cases h1 : index < entry.1 <;> by_cases h2 : entry.1 = index <;>
        by_cases ho : other = entry.1 <;> grind [insertEntry]
  exact aux a.entries a.ascending

/-- An element that was written is read at its index. -/
theorem getFromEnd?_insert (a : IndexedArray) (index : Nat) (value : String) :
    (a.insert index value).getFromEnd? (.ofNat index) = some value := by
  show (a.insert index value).get? index = some value
  rw [get?_insert, if_pos rfl]

theorem get?_erase (a : IndexedArray) (index other : Nat) :
    (a.erase index).get? other = if other = index then none else a.get? other := by
  have aux (entries : List (Nat × String)) :
      (entries.filter (·.1 ≠ index)).lookup other =
        if other = index then none else entries.lookup other := by
    induction entries with
    | nil => simp
    | cons entry rest ih =>
      by_cases h : entry.1 = index <;> by_cases ho : other = entry.1 <;>
        grind
  exact aux a.entries

end IndexedArray

end ShellExpansion
