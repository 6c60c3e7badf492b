/-! # Tables

A `Table` maps texts to values and keeps its keys in the order in which they first came in:
writing to a key that is there leaves it in its place, and a key that was removed comes back at
the end. No key occurs twice. Main statements: `get?_insert`, `get?_erase`, `keys_insert`. -/

namespace ShellExpansion

/-- A map from texts, in order of insertion. -/
structure Table (α : Type) where
  entries : List (String × α)
  nodup : (entries.map Prod.fst).Nodup
deriving DecidableEq, Repr

namespace Table

variable {α : Type}

/-- The table without entries. -/
def empty : Table α := ⟨[], List.nodup_nil⟩

instance : Inhabited (Table α) := ⟨empty⟩

/-- The keys, in order. -/
def keys (t : Table α) : List String := t.entries.map Prod.fst

/-- The values, in the order of their keys. -/
def values (t : Table α) : List α := t.entries.map Prod.snd

/-- The value at a key. -/
def get? (t : Table α) (key : String) : Option α := t.entries.lookup key

/-- The entries with the value at a key replaced, or a new entry at the end. -/
def insertEntry (key : String) (a : α) : List (String × α) → List (String × α)
  | [] => [(key, a)]
  | entry :: rest =>
    if entry.1 = key then (key, a) :: rest else entry :: insertEntry key a rest

theorem map_fst_insertEntry (key : String) (a : α) (entries : List (String × α)) :
    (insertEntry key a entries).map Prod.fst =
      if key ∈ entries.map Prod.fst then entries.map Prod.fst
      else entries.map Prod.fst ++ [key] := by
  induction entries with
  | nil => simp [insertEntry]
  | cons entry rest ih =>
    by_cases h : entry.1 = key
    · simp [insertEntry, h]
    · have h' : key ≠ entry.1 := fun e => h e.symm
      simp only [insertEntry, h, if_false, List.map_cons, ih, List.mem_cons, h', false_or]
      split <;> simp

theorem lookup_insertEntry (key other : String) (a : α) (entries : List (String × α)) :
    (insertEntry key a entries).lookup other =
      if other = key then some a else entries.lookup other := by
  induction entries with
  | nil =>
    by_cases h : other = key
    · simp [insertEntry, h]
    · simp [insertEntry, List.lookup_cons, h, beq_false_of_ne h]
  | cons entry rest ih =>
    by_cases h : entry.1 = key <;> by_cases ho : other = entry.1 <;>
      grind [insertEntry]

/-- The table with a value written to a key. -/
def insert (t : Table α) (key : String) (a : α) : Table α where
  entries := insertEntry key a t.entries
  nodup := by
    rw [map_fst_insertEntry]
    split
    · exact t.nodup
    · next h =>
      rw [List.nodup_append]
      exact ⟨t.nodup, by simp, by grind⟩

/-- The table without a key. -/
def erase (t : Table α) (key : String) : Table α where
  entries := t.entries.filter (·.1 ≠ key)
  nodup := t.nodup.sublist (List.filter_sublist.map Prod.fst)

/-- The table that the pairs make when they are written one after the other. -/
def ofList (pairs : List (String × α)) : Table α :=
  pairs.foldl (fun t pair => t.insert pair.1 pair.2) empty

theorem get?_insert (t : Table α) (key other : String) (a : α) :
    (t.insert key a).get? other = if other = key then some a else t.get? other :=
  lookup_insertEntry key other a t.entries

theorem keys_insert (t : Table α) (key : String) (a : α) :
    (t.insert key a).keys = if key ∈ t.keys then t.keys else t.keys ++ [key] :=
  map_fst_insertEntry key a t.entries

theorem get?_erase (t : Table α) (key other : String) :
    (t.erase key).get? other = if other = key then none else t.get? other := by
  have aux (entries : List (String × α)) :
      (entries.filter (·.1 ≠ key)).lookup other =
        if other = key then none else entries.lookup other := by
    induction entries with
    | nil => simp
    | cons entry rest ih =>
      by_cases h : entry.1 = key <;> by_cases ho : other = entry.1 <;>
        grind
  exact aux t.entries

end Table

end ShellExpansion
