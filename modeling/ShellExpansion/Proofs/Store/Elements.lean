import Mathlib.Logic.Function.Basic
import ShellExpansion.Proofs.Store.Indices
import ShellExpansion.Proofs.Store.WellFormed

/-! # Arrays as maps

An array is a function from indices or keys to elements.  A write changes this function at one
argument, and writes one after the other leave what was written last (`HoldsLast`,
`IndexedArray.holdsLast_insertAll`, `Table.holdsLast_insertAll`).  The bound of an indexed array
lies behind its last index, and negative indices are counted from there
(`IndexedArray.getFromEnd?_neg`). -/

namespace ShellExpansion

/-! ### Entries of lists -/

section entries

variable {κ α : Type} {entries : List (κ × α)} {key : κ} {value : α}

theorem lookup_eq_none_iff_not_mem [BEq κ] [LawfulBEq κ] :
    entries.lookup key = none ↔ key ∉ entries.map Prod.fst := by
  rw [List.mem_map]
  refine List.lookup_eq_none_iff.trans ⟨fun h => ?_, fun h entry hentry => ?_⟩
  · rintro ⟨entry, hentry, rfl⟩
    exact bne_iff_ne.mp (h entry hentry) rfl
  · exact bne_iff_ne.mpr fun heq => h ⟨entry, hentry, heq.symm⟩

theorem mem_of_getElem?_map {i : ℕ} (hkey : (entries.map Prod.fst)[i]? = some key)
    (hvalue : (entries.map Prod.snd)[i]? = some value) : (key, value) ∈ entries := by
  rw [List.getElem?_map, Option.map_eq_some_iff] at hkey
  obtain ⟨entry, hentry, rfl⟩ := hkey
  rw [List.getElem?_map, hentry, Option.map_some, Option.some.injEq] at hvalue
  rw [← hvalue]
  exact List.mem_of_getElem? hentry

end entries

/-! ### Writes one after the other -/

section lastWrites

variable {κ : Type}

/-- A map behind writes to it: what was written is there as it was written last, and everything else
is as it was. -/
structure HoldsLast (writes : List (κ × String)) (old new : κ → Option String) : Prop where
  last {front back : List (κ × String)} {key : κ} {value : String}
      (hwrites : writes = front ++ (key, value) :: back) (hback : ∀ later ∈ back, later.1 ≠ key) :
    new key = some value
  other {key : κ} (hkey : ∀ written ∈ writes, written.1 ≠ key) : new key = old key

variable [DecidableEq κ]

/-- The map with the writes made, one after the other. -/
def updateAll (old : κ → Option String) (writes : List (κ × String)) : κ → Option String :=
  writes.foldl (fun elements written => Function.update elements written.1 (some written.2)) old

theorem holdsLast_updateAll (old : κ → Option String) (writes : List (κ × String)) :
    HoldsLast writes old (updateAll old writes) := by
  induction writes generalizing old with
  | nil =>
      refine ⟨fun {front back key value} hwrites _ => ?_, fun _ => rfl⟩
      cases front <;> cases hwrites
  | cons first rest ih =>
      have ih := ih (Function.update old first.1 (some first.2))
      refine ⟨fun {front back key value} hwrites hback => ?_, fun {key} hkey => ?_⟩
      · cases front with
        | nil =>
            -- The first write is the last one to its key.
            obtain ⟨rfl, rfl⟩ := List.cons.inj hwrites
            exact (ih.other hback).trans (Function.update_self ..)
        | cons _ front => exact ih.last (List.cons.inj hwrites).2 hback
      · have hrest := ih.other fun written hmem => hkey written (List.mem_cons_of_mem first hmem)
        exact hrest.trans (Function.update_of_ne (hkey first List.mem_cons_self).symm ..)

end lastWrites

namespace IndexedArray

variable {a : IndexedArray} {index : ℕ} {value : String}

theorem get?_insert_eq_update (a : IndexedArray) (index : ℕ) (value : String) :
    (a.insert index value).get? = Function.update a.get? index (some value) :=
  funext fun other => by rw [get?_insert, Function.update_apply]

theorem get?_erase_eq_update (a : IndexedArray) (index : ℕ) :
    (a.erase index).get? = Function.update a.get? index none :=
  funext fun other => by rw [get?_erase, Function.update_apply]

/-- The array with the writes made, one after the other. -/
def insertAll (a : IndexedArray) (writes : List (ℕ × String)) : IndexedArray :=
  writes.foldl (fun elements written => elements.insert written.1 written.2) a

theorem get?_insertAll (a : IndexedArray) (writes : List (ℕ × String)) :
    (a.insertAll writes).get? = updateAll a.get? writes := by
  induction writes generalizing a with
  | nil => rfl
  | cons written writes ih =>
      rw [insertAll, List.foldl_cons, ← insertAll, ih, get?_insert_eq_update]
      rfl

/-- **Writes one after the other leave the last ones.** -/
theorem holdsLast_insertAll (a : IndexedArray) (writes : List (ℕ × String)) :
    HoldsLast writes a.get? (a.insertAll writes).get? := by
  rw [get?_insertAll]
  exact holdsLast_updateAll a.get? writes

/-! ### Entries and the bound behind them -/

theorem get?_eq_some_iff : a.get? index = some value ↔ (index, value) ∈ a.entries := by
  refine ⟨fun h => ?_, get?_of_mem⟩
  obtain ⟨front, back, hentries, -⟩ := List.lookup_eq_some_iff.mp h
  rw [hentries]
  exact List.mem_append_right front List.mem_cons_self

/-- The bound lies behind the last entry. -/
theorem bound_spec (a : IndexedArray) :
    (∀ entry ∈ a.entries, entry.1 < a.bound) ∧
      (a.entries = [] ∧ a.bound = 0 ∨ ∃ entry ∈ a.entries, a.bound = entry.1 + 1) := by
  unfold bound
  cases hlast : a.entries.getLast? with
  | none =>
      have hnil : a.entries = [] := List.getLast?_eq_none_iff.mp hlast
      rw [hnil]
      exact ⟨nofun, .inl ⟨rfl, rfl⟩⟩
  | some last =>
      obtain ⟨front, hentries⟩ := List.getLast?_eq_some_iff.mp hlast
      refine ⟨fun entry hentry => ?_, .inr ⟨last, List.mem_of_getLast? hlast, rfl⟩⟩
      have hascending := a.ascending
      rw [hentries, List.map_append, List.pairwise_append] at hascending
      rw [hentries] at hentry
      rcases List.mem_append.mp hentry with hfront | hlast
      · have hlt := hascending.2.2 entry.1 (List.mem_map_of_mem hfront) last.1 List.mem_cons_self
        exact Nat.lt_succ_of_lt hlt
      · rw [List.mem_singleton.mp hlast]
        exact Nat.lt_succ_self _

theorem get?_eq_none_iff : a.get? index = none ↔ index ∉ a.indices :=
  lookup_eq_none_iff_not_mem

/-- The index and the value at one place of the array belong together. -/
theorem get?_of_getElem? {i : ℕ} (hindex : a.indices[i]? = some index)
    (hvalue : a.values[i]? = some value) : a.get? index = some value :=
  get?_eq_some_iff.mpr (mem_of_getElem?_map hindex hvalue)

theorem get?_of_bound_le (h : a.bound ≤ index) : a.get? index = none := by
  refine Option.eq_none_iff_forall_ne_some.mpr fun value hvalue => ?_
  have hlt := a.bound_spec.1 _ (get?_eq_some_iff.mp hvalue)
  omega

/-- The element so many places before the bound. -/
theorem getFromEnd?_neg {k : ℕ} (hk : 1 ≤ k) :
    a.getFromEnd? (-k) = if k ≤ a.bound then a.get? (a.bound - k) else none := by
  have hnegative : ¬(0 : ℤ) ≤ -k := by omega
  rw [getFromEnd?, fromEnd, if_neg hnegative]
  split_ifs with hle
  · rw [show (a.bound : ℤ) + -k = Int.ofNat (a.bound - k) by rw [Int.ofNat_eq_natCast]; omega]
  · obtain ⟨below, hbelow⟩ : ∃ below : ℕ, (a.bound : ℤ) + -k = Int.negSucc below :=
      Int.eq_negSucc_of_lt_zero (by omega)
    rw [hbelow]

theorem getFromEnd?_empty (index : ℤ) : empty.getFromEnd? index = none := by
  unfold getFromEnd?
  cases empty.fromEnd index <;> rfl

/-- Index zero and the last index are those of a lone element. -/
theorem getFromEnd?_singleton (text : String) (index : ℤ) :
    (singleton text).getFromEnd? index = if index = 0 ∨ index = -1 then some text else none := by
  match index with
  | .ofNat 0 => rfl
  | .negSucc 0 => rfl
  | .ofNat (n + 1) =>
      have hn : ¬((n : ℤ) + 1 = 0 ∨ (n : ℤ) + 1 = -1) := by omega
      exact (if_neg hn).symm
  | .negSucc (n + 1) =>
      rw [if_neg (by omega)]
      rfl

end IndexedArray

namespace Table

variable {α : Type}

theorem get?_insert_eq_update (t : Table α) (key : String) (a : α) :
    (t.insert key a).get? = Function.update t.get? key (some a) :=
  funext fun other => by rw [get?_insert, Function.update_apply]

theorem get?_erase_eq_update (t : Table α) (key : String) :
    (t.erase key).get? = Function.update t.get? key none :=
  funext fun other => by rw [get?_erase, Function.update_apply]

theorem keys_erase (t : Table α) (key : String) : (t.erase key).keys = t.keys.filter (· ≠ key) := by
  simp [keys, erase, List.filter_map, Function.comp_def]

theorem get?_eq_none_iff {t : Table α} {key : String} : t.get? key = none ↔ key ∉ t.keys :=
  lookup_eq_none_iff_not_mem

/-- The key and the value at one place of the table belong together. -/
theorem get?_of_getElem? {t : Table α} {i : ℕ} {key : String} {a : α}
    (hkey : t.keys[i]? = some key) (hvalue : t.values[i]? = some a) : t.get? key = some a :=
  get?_eq_some_iff.mpr (mem_of_getElem?_map hkey hvalue)

/-- The table with the writes made, one after the other. -/
def insertAll (t : Table α) (writes : List (String × α)) : Table α :=
  writes.foldl (fun elements written => elements.insert written.1 written.2) t

theorem get?_insertAll (t : Table String) (writes : List (String × String)) :
    (t.insertAll writes).get? = updateAll t.get? writes := by
  induction writes generalizing t with
  | nil => rfl
  | cons written writes ih =>
      rw [insertAll, List.foldl_cons, ← insertAll, ih, get?_insert_eq_update]
      rfl

/-- **Writes one after the other leave the last ones.** -/
theorem holdsLast_insertAll (t : Table String) (writes : List (String × String)) :
    HoldsLast writes t.get? (t.insertAll writes).get? := by
  rw [get?_insertAll]
  exact holdsLast_updateAll t.get? writes

end Table

end ShellExpansion
