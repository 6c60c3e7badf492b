import Mathlib.Algebra.Group.Nat.Defs
import ShellExpansion.Eval.Element
import ShellExpansion.Proofs.Store.Lasting

/-! # Indices beyond the range

Expressions stand for the integers of the signed 64-bit range, and so do the subscripts that they
are.  An item of a literal without a subscript goes behind the item in front of it, which may be the
last index of the range.  So what is known of all arrays is that they stay in the range or hold the
indices on both sides of its end (`IndexedArray.Counted`).  Insertions at indices that an array
takes keep this (`Counted.insert`), and so do declarations and removals of variables
(`lasting_arrays`). -/

namespace ShellExpansion

namespace IndexedArray

variable {a : IndexedArray} {index : Nat}

theorem mem_indices_insert {i : Nat} {value : String} :
    i ∈ (a.insert index value).indices ↔ i = index ∨ i ∈ a.indices :=
  mem_map_fst_insertEntry

/-- Expressions stand for all indices. -/
def InRange (a : IndexedArray) : Prop := ∀ index ∈ a.indices, index < 2 ^ 63

/-- The last index of the range is taken, and so is the next one. -/
def CountsOn (a : IndexedArray) : Prop := 2 ^ 63 - 1 ∈ a.indices ∧ 2 ^ 63 ∈ a.indices

/-- No index is beyond the range, if it was not counted to from the last one in it. -/
def Counted (a : IndexedArray) : Prop := a.InRange ∨ a.CountsOn

/-- The index is in the range, or comes behind one that is taken. -/
def Takes (a : IndexedArray) (index : Nat) : Prop :=
  index < 2 ^ 63 ∨ ∃ before ∈ a.indices, index = before + 1

instance (a : IndexedArray) : Decidable a.InRange :=
  inferInstanceAs (Decidable (∀ index ∈ a.indices, index < 2 ^ 63))

instance (a : IndexedArray) : Decidable a.CountsOn :=
  inferInstanceAs (Decidable (2 ^ 63 - 1 ∈ a.indices ∧ 2 ^ 63 ∈ a.indices))

theorem inRange_empty : empty.InRange := fun _ hindex => absurd hindex List.not_mem_nil

theorem inRange_singleton (value : String) : (singleton value).InRange := by
  intro index hindex
  obtain rfl := List.mem_singleton.mp hindex
  exact Nat.two_pow_pos 63

/-- An array without one of its elements has no new indices. -/
theorem InRange.erase (h : a.InRange) (index : Nat) : (a.erase index).InRange :=
  fun i hi => h i ((List.filter_sublist.map Prod.fst).subset hi)

/-- **Counting keeps the arrays counted.** -/
theorem Counted.insert (h : a.Counted) (hindex : a.Takes index) (value : String) :
    (a.insert index value).Counted := by
  rcases h with hrange | ⟨hlast, hnext⟩
  · rcases hindex with hlt | ⟨before, hbefore, rfl⟩
    · left
      intro i hi
      rcases mem_indices_insert.mp hi with rfl | hi
      · exact hlt
      · exact hrange i hi
    · have hlt := hrange before hbefore
      by_cases heq : before = 2 ^ 63 - 1
      · -- This index is the first one beyond the range.
        right
        refine ⟨mem_indices_insert.mpr (.inr (heq ▸ hbefore)), mem_indices_insert.mpr (.inl ?_)⟩
        omega
      · left
        intro i hi
        rcases mem_indices_insert.mp hi with rfl | hi
        · omega
        · exact hrange i hi
  · right
    exact ⟨mem_indices_insert.mpr (.inr hlast), mem_indices_insert.mpr (.inr hnext)⟩

/-- An array takes the index behind its last one. -/
theorem takes_bound (a : IndexedArray) : a.Takes a.bound := by
  unfold bound
  cases hlast : a.entries.getLast? with
  | none => exact .inl (by decide)
  | some entry =>
      exact .inr ⟨entry.1, List.mem_map_of_mem (List.mem_of_getLast? hlast), rfl⟩

theorem takes_succ_insert (a : IndexedArray) (index : Nat) (value : String) :
    (a.insert index value).Takes (index + 1) :=
  .inr ⟨index, mem_indices_insert.mpr (.inl rfl), rfl⟩

/-- An element stands under its index. -/
theorem get?_of_mem {value : String} (h : (index, value) ∈ a.entries) :
    a.get? index = some value := by
  obtain ⟨entries, hascending⟩ := a
  unfold get?
  dsimp only at h ⊢
  induction entries with
  | nil => cases h
  | cons entry rest ih =>
      rw [List.map_cons, List.pairwise_cons] at hascending
      rcases List.mem_cons.mp h with rfl | hrest
      · rw [List.lookup_cons, beq_self_eq_true]
      · -- The indices behind the first one are greater.
        have hlt := hascending.1 index (List.mem_map_of_mem hrest)
        rw [List.lookup_cons, beq_false_of_ne (Nat.ne_of_gt hlt)]
        exact ih hascending.2 hrest

end IndexedArray

/-- The value is no indexed array, or one that satisfies the predicate. -/
def Value.Arrays (p : IndexedArray → Prop) (value : Value) : Prop :=
  ∀ elements, value = .indexed elements → p elements

namespace Store

variable {s s' : Store} {place : Place} {scope : Scope} {name text : String} {b : Binding}
  {rights : Rights} {p : IndexedArray → Prop}

/-- All indexed arrays satisfy the predicate. -/
def EveryArray (p : IndexedArray → Prop) (s : Store) : Prop :=
  s.EveryValue fun _ value => value.Arrays p

/-- An indexed array satisfies the predicate. -/
def SomeArray (p : IndexedArray → Prop) (s : Store) : Prop :=
  ∃ level name b elements, s.slot? level name = some b ∧ b.value = .indexed elements ∧ p elements

theorem EveryArray.mono {q : IndexedArray → Prop} (h : s.EveryArray p) (hpq : ∀ a, p a → q a) :
    s.EveryArray q :=
  fun _ _ _ hslot elements hvalue => hpq elements (h hslot elements hvalue)

/-- Where not all arrays stay in the range, one of them counts on. -/
theorem EveryArray.exists_countsOn (h : s.EveryArray IndexedArray.Counted)
    (hbeyond : ¬ s.EveryArray IndexedArray.InRange) : s.SomeArray IndexedArray.CountsOn := by
  by_contra hnone
  refine hbeyond fun level name b hslot elements hvalue => ?_
  exact (h hslot elements hvalue).resolve_right fun hcounts =>
    hnone ⟨level, name, b, elements, hslot, hvalue, hcounts⟩

/-- An array that is declared has at most one element, at index zero. -/
theorem lasting_arrays (hpointing : rights.pointing = true) (hempty : p .empty)
    (hsingleton : ∀ text, p (.singleton text)) : Lasting rights fun _ value => value.Arrays p where
  unset _ _ heq := nomatch heq
  written _ hassigns := absurd (hpointing.symm.trans hassigns) Bool.true_eq_false.mp
  converted {name old value kind} h hvalue _ := by
    rintro elements rfl
    obtain rfl : kind = .indexed := Option.some.inj (converted_kind? hvalue).symm
    cases old with
    | unset =>
        cases hvalue
        exact hempty
    | scalar text =>
        cases hvalue
        exact hsingleton text
    | indexed elements =>
        cases hvalue
        exact h _ rfl
    | _ => cases hvalue
  pointed _ _ _ _ _ heq := nomatch heq
  ended {name target} _ elements heq := by
    unfold endedReference at heq
    split_ifs at heq

end Store

end ShellExpansion
