import Mathlib.Data.List.Nodup
import ShellExpansion.Proofs.Eval.ElementWrites

/-! # Where the items of a literal go

A literal writes its items one after the other: an item with an index goes there, and any other
behind the item before it (`ArrayLiteral.placed`).  So each index holds the item that was written to
it last, and what the literal is appended to holds its elements everywhere else
(`Evaluators.assignLiteral_places`).  The pairs of a literal for an associative array are written in
the same way. -/

namespace ShellExpansion

namespace ArrayLiteral

/-- The literal with these items, an index being written as its decimal text. -/
def ofIndexed (items : List (Option ℕ × String)) : ArrayLiteral :=
  ⟨items.map fun item => ⟨item.1.map toString, item.2⟩⟩

/-- The literal with an item for each pair of a key and a value. -/
def ofPairs (pairs : List (String × String)) : ArrayLiteral :=
  ⟨pairs.map fun pair => ⟨some pair.1, pair.2⟩⟩

/-- The literal of items without keys. -/
def ofValues (values : List String) : ArrayLiteral := ⟨values.map (ArrayItem.mk none)⟩

/-- The indices that items are written at: the one that an item has, or else the one behind the item
before it; `next` is for a first item that has none. -/
def placed : ℕ → List (Option ℕ × String) → List (ℕ × String)
  | _, [] => []
  | next, (index, value) :: rest =>
    (index.getD next, value) :: placed (index.getD next + 1) rest

theorem placed_append (front back : List (Option ℕ × String)) (next : ℕ) :
    ∃ behind, placed next (front ++ back) = placed next front ++ placed behind back := by
  induction front generalizing next with
  | nil => exact ⟨next, rfl⟩
  | cons item front ih =>
      obtain ⟨behind, hrest⟩ := ih (item.1.getD next + 1)
      exact ⟨behind, congrArg (List.cons _) hrest⟩

/-- Items that all have indices are written there. -/
theorem placed_indexed (writes : List (ℕ × String)) (next : ℕ) :
    placed next (writes.map fun written => (some written.1, written.2)) = writes := by
  induction writes generalizing next with
  | nil => rfl
  | cons written writes ih => exact congrArg (List.cons written) (ih _)

end ArrayLiteral

/-- Items without indices are written one behind the other. -/
theorem IndexedArray.get?_insertAll_values (a : IndexedArray) (values : List String)
    (start index : ℕ) :
    (a.insertAll (ArrayLiteral.placed start (values.map (none, ·)))).get? index =
      if index < start then a.get? index else values[index - start]?.or (a.get? index) := by
  induction values generalizing a start with
  | nil => simp [ArrayLiteral.placed, insertAll]
  | cons value values ih =>
      show ((a.insert start value).insertAll
        (ArrayLiteral.placed (start + 1) (values.map (none, ·)))).get? index = _
      rw [ih, get?_insert]
      rcases Nat.lt_trichotomy index start with hlt | rfl | hgt
      · rw [if_pos (by omega), if_neg (by omega), if_pos hlt]
      · rw [if_pos (by omega), if_pos rfl, if_neg (by omega), Nat.sub_self]
        rfl
      · obtain ⟨behind, rfl⟩ : ∃ behind, index = start + 1 + behind :=
          ⟨index - (start + 1), by omega⟩
        rw [if_neg (by omega), if_neg (by omega), if_neg (by omega),
          show start + 1 + behind - start = behind + 1 by omega, Nat.add_sub_cancel_left,
          List.getElem?_cons_succ]

/-- Values are written behind the last index, and then others at their indices. -/
theorem IndexedArray.get?_insertAll_overridden (a : IndexedArray) (values : List String)
    {writes : List (ℕ × String)} (hnodup : (writes.map Prod.fst).Nodup) (index : ℕ) :
    (a.insertAll (ArrayLiteral.placed a.bound (values.map (none, ·) ++
      writes.map fun written => (some written.1, written.2)))).get? index =
        (writes.lookup index).or
          (if index < a.bound then a.get? index else values[index - a.bound]?) := by
  obtain ⟨behind, hplaced⟩ := ArrayLiteral.placed_append (values.map (none, ·))
    (writes.map fun written => (some written.1, written.2)) a.bound
  rw [hplaced, ArrayLiteral.placed_indexed, insertAll, List.foldl_append, ← insertAll, ← insertAll]
  have hlast := holdsLast_insertAll
    (a.insertAll (ArrayLiteral.placed a.bound (values.map (none, ·)))) writes
  cases hlookup : writes.lookup index with
  | none =>
      have hkey : ∀ written ∈ writes, written.1 ≠ index := by
        intro written hwritten
        exact (bne_iff_ne.mp (List.lookup_eq_none_iff.mp hlookup written hwritten)).symm
      rw [hlast.other hkey, get?_insertAll_values, Option.none_or]
      split_ifs with hlt
      · rfl
      · rw [get?_of_bound_le (Nat.le_of_not_lt hlt), Option.or_none]
  | some value =>
      obtain ⟨front, back, hwrites, -⟩ := List.lookup_eq_some_iff.mp hlookup
      -- No index is written twice.
      have hback : ∀ later ∈ back, later.1 ≠ index := by
        rw [hwrites, List.map_append, List.nodup_append, List.map_cons, List.nodup_cons] at hnodup
        intro later hlater heq
        exact hnodup.2.1.1 (List.mem_map.mpr ⟨later, hlater, heq⟩)
      exact hlast.last hwrites hback

namespace Evaluators

open Eval ArrayLiteral

variable {name : String} {scope : Scope} {place : Store.Place} {b : Binding} {prepared : Store}
  {shell : Shell}

/-! ### Items -/

/-- **The items are written where they are placed.** -/
theorem insertItems_placed (levels : ℕ) (name : String) {items : List (Option ℕ × String)}
    (hitems : ∀ item ∈ items, ∀ index ∈ item.1, index < 2 ^ 63) (next : ℕ)
    (elements : IndexedArray) :
    (evaluators (levels + 1)).insertItems name false (ofIndexed items).items next elements =
      pure (elements.insertAll (placed next items)) := by
  induction items generalizing next elements with
  | nil => rfl
  | cons item items ih =>
      obtain ⟨index, value⟩ := item
      have hrest := fun other hother => hitems other (List.mem_cons_of_mem _ hother)
      have ih := ih hrest (index.getD next + 1) (elements.insert (index.getD next) value)
      show (evaluators (levels + 1)).insertItems name false
        (⟨index.map toString, value⟩ :: (ofIndexed items).items) next elements = _
      rw [insertItems]
      cases index with
      | none =>
          dsimp only [Option.map_none]
          rw [pure_bind, stored_text, pure_bind]
          exact ih
      | some index =>
          have hindex : index < 2 ^ 63 := hitems _ List.mem_cons_self index rfl
          dsimp only [Option.map_some]
          rw [index_toString hindex, pure_bind]
          show (pure index >>= _) = _
          rw [pure_bind, stored_text, pure_bind]
          exact ih

theorem insertPairs_insertAll (deeper : Evaluators) (pairs : List (String × String))
    (elements : Table String) :
    deeper.insertPairs false pairs elements = pure (elements.insertAll pairs) := by
  induction pairs generalizing elements with
  | nil => rfl
  | cons pair pairs ih =>
      rw [insertPairs, stored_text, pure_bind]
      exact ih (elements.insert pair.1 pair.2)

/-- Texts in pairs are the texts, with an empty one behind them if their number is odd. -/
theorem flatMap_inPairs : ∀ values : List String,
    (associativePairs.inPairs values).flatMap (fun pair => [pair.1, pair.2]) =
      values ++ if values.length % 2 = 1 then [""] else []
  | [] => rfl
  | [_] => rfl
  | key :: value :: rest => by
      have hparity : (key :: value :: rest).length % 2 = rest.length % 2 :=
        Nat.add_mod_right rest.length 2
      rw [associativePairs.inPairs, List.flatMap_cons, flatMap_inPairs rest, hparity]
      rfl

/-- Values and overrides are the items of a literal that is appended. -/
theorem appendLiteral_eq (deeper : Evaluators) (name : String) (values : List String)
    {overrides : Table String} {writes : List (ℕ × String)}
    (hentries : overrides.entries = writes.map fun written => (toString written.1, written.2)) :
    deeper.appendLiteral name values overrides = deeper.assignLiteral name
      (ofIndexed (values.map (none, ·) ++ writes.map fun written => (some written.1, written.2)))
      .nearest true := by
  rw [appendLiteral, hentries, ofIndexed, List.map_append, List.map_map, List.map_map, List.map_map]
  rfl

theorem associativePairs_ofValues (name : String) (values : List String) :
    associativePairs name (ofValues values) = .ok (associativePairs.inPairs values) := by
  have hkeys : (ofValues values).hasKeys = false := by
    simp [hasKeys, ofValues]
  have hvalues : (ofValues values).items.map (·.value) = values :=
    List.map_map.trans (List.map_id values)
  rw [associativePairs, hkeys, if_neg Bool.false_ne_true, hvalues]

/-! ### Literals -/

/-- An action puts an array at a place and changes nothing else; the name reads as the array if the
place is that of its nearest binding. -/
def PutsArray (action : Eval Store.Place) (name : String) (scope : Scope) (place : Store.Place)
    (b : Binding) (value : Value) (shell : Shell) : Prop :=
  ∃ shell', action shell = (.ok place, shell') ∧
    shell.Rebound place ⟨value, b.attributes, b.generation + 1⟩ shell' ∧
    (scope = .nearest → valueNamed name shell' = (.ok value, shell'))

section assignments

variable (hprepare : shell.store.prepare name scope = .ok (place, prepared))
  (hget : prepared.get place = b) (hreference : b.value.isReference = false)
  (hinteger : b.attributes.integer = false)

include hprepare

omit hreference in
theorem putsArray_of_run {action : Eval Store.Place} {value : Value}
    (hvalue : value.isReference = false)
    (hrun : action shell = (.ok place, { shell with
      store := prepared.put place ⟨value, b.attributes, b.generation + 1⟩ })) :
    PutsArray action name scope place b value shell := by
  have hafter := shell.rebound_of_prepare hprepare ⟨value, b.attributes, b.generation + 1⟩
  refine ⟨_, hrun, hafter, ?_⟩
  rintro rfl
  obtain ⟨hplace, -⟩ := Store.prepare_spec hprepare
  obtain ⟨⟨final, found⟩, hresolve, -⟩ := exists_of_map_eq_ok hplace
  rw [Store.place_nearest hresolve] at hplace
  cases hplace
  exact valueNamed_of_resolve (hafter.store.resolve_eq hvalue hresolve)

include hget hreference hinteger

theorem assignLiteral_placed (levels : ℕ) (hkind : b.value.kind? ≠ some .associative)
    {items : List (Option ℕ × String)} (hitems : ∀ item ∈ items, ∀ index ∈ item.1, index < 2 ^ 63)
    (append : Bool) :
    let old := if append then sliceable b.value else .empty
    PutsArray ((evaluators (levels + 1)).assignLiteral name (ofIndexed items) scope append) name
      scope place b (.indexed (old.insertAll (placed old.bound items))) shell := by
  intro old
  refine putsArray_of_run hprepare rfl
    (assignLiteral_index_run _ hprepare hget hreference hkind append rfl ?_)
  rw [hinteger]
  exact insertItems_placed levels place.name hitems old.bound old

omit hprepare in
/-- **Values go behind the last index, and others then go in their place.** -/
theorem appendLiteral_placed (hscope : scope = .nearest)
    (hprepare : shell.store.prepare name scope = .ok (place, prepared)) (levels : ℕ)
    (hkind : b.value.kind? ≠ some .associative) (values : List String) {overrides : Table String}
    {writes : List (ℕ × String)}
    (hentries : overrides.entries = writes.map fun written => (toString written.1, written.2))
    (hwrites : ∀ written ∈ writes, written.1 < 2 ^ 63) :
    let old := sliceable b.value
    ∃ elements : IndexedArray,
      (∀ index, elements.get? index = (writes.lookup index).or
        (if index < old.bound then old.get? index else values[index - old.bound]?)) ∧
      PutsArray ((evaluators (levels + 1)).appendLiteral name values overrides) name scope place b
        (.indexed elements) shell := by
  subst hscope
  have hnodup : (writes.map Prod.fst).Nodup := by
    have hkeys := overrides.nodup
    rw [hentries, List.map_map] at hkeys
    refine List.Nodup.of_map toString ?_
    rw [List.map_map]
    exact hkeys
  have hitems : ∀ item ∈ values.map (none, ·) ++ writes.map (fun written =>
      (some written.1, written.2)), ∀ index ∈ item.1, index < 2 ^ 63 := by
    intro item hitem
    rcases List.mem_append.mp hitem with hitem | hitem
    · obtain ⟨value, -, rfl⟩ := List.mem_map.mp hitem
      nofun
    · obtain ⟨written, hwritten, rfl⟩ := List.mem_map.mp hitem
      rintro index ⟨⟩
      exact hwrites written hwritten
  rw [appendLiteral_eq _ name values hentries]
  exact ⟨_, IndexedArray.get?_insertAll_overridden _ values hnodup,
    assignLiteral_placed hprepare hget hreference hinteger levels hkind hitems true⟩

omit hreference in
theorem assignLiteral_pairs (deeper : Evaluators) {old : Table String}
    (hvalue : b.value = .associative old) {literal : ArrayLiteral} {pairs : List (String × String)}
    (hpairs : associativePairs place.name literal = .ok pairs) (append : Bool) :
    PutsArray (deeper.assignLiteral name literal scope append) name scope place b
      (.associative ((if append then old else .empty).insertAll pairs)) shell := by
  refine putsArray_of_run hprepare rfl
    (assignLiteral_associative_run deeper hprepare hget hvalue hpairs append ?_)
  rw [hinteger]
  exact insertPairs_insertAll deeper pairs _

/-- **A literal places its items.**  Let a place be ready to be written, with a variable that is no
reference and has no integer attribute.  In an array with indices the literal leaves at each index
the value of the last item that is placed there, and everywhere else the element that was there
before, if it is appended, and none if it is not; a scalar counts as an element at index zero.
Values that are appended go behind the last index, and values at indices go in their place, or in
that of an older element.  In an associative array the literal writes its pairs, of keys and values
or of texts two by two, over the old ones if it is appended, and over nothing if it is not. -/
theorem assignLiteral_places (levels : ℕ) :
    (b.value.kind? ≠ some .associative →
      (∀ items append, (∀ item ∈ items, ∀ index ∈ item.1, index < 2 ^ 63) →
        let old := if append then sliceable b.value else .empty
        ∃ elements, HoldsLast (placed old.bound items) old.get? elements.get? ∧
          PutsArray ((evaluators (levels + 1)).assignLiteral name (ofIndexed items) scope append)
            name scope place b (.indexed elements) shell) ∧
      (scope = .nearest → ∀ values (overrides : Table String) (writes : List (ℕ × String)),
        overrides.entries = writes.map (fun written => (toString written.1, written.2)) →
        (∀ written ∈ writes, written.1 < 2 ^ 63) →
        let old := sliceable b.value
        ∃ elements : IndexedArray,
          (∀ index, elements.get? index = (writes.lookup index).or
            (if index < old.bound then old.get? index else values[index - old.bound]?)) ∧
          PutsArray ((evaluators (levels + 1)).appendLiteral name values overrides) name scope
            place b (.indexed elements) shell)) ∧
    ∀ old, b.value = .associative old → ∀ append,
      let start := if append then old else .empty
      (∀ pairs, HoldsLast pairs start.get? (start.insertAll pairs).get? ∧
        PutsArray ((evaluators (levels + 1)).assignLiteral name (ofPairs pairs) scope append) name
          scope place b (.associative (start.insertAll pairs)) shell) ∧
      ∀ values, ∃ pairs, HoldsLast pairs start.get? (start.insertAll pairs).get? ∧
        pairs.flatMap (fun pair => [pair.1, pair.2]) =
          values ++ (if values.length % 2 = 1 then [""] else []) ∧
        PutsArray ((evaluators (levels + 1)).assignLiteral name (ofValues values) scope append) name
          scope place b (.associative (start.insertAll pairs)) shell := by
  refine ⟨fun hkind => ⟨fun items append hitems => ?_, ?_⟩,
    fun old hvalue append => ⟨fun pairs => ?_, fun values => ?_⟩⟩
  · exact ⟨_, IndexedArray.holdsLast_insertAll _ _,
      assignLiteral_placed hprepare hget hreference hinteger levels hkind hitems append⟩
  · exact fun hscope values overrides writes hentries hwrites => appendLiteral_placed hget
      hreference hinteger hscope hprepare levels hkind values hentries hwrites
  · exact ⟨Table.holdsLast_insertAll _ pairs, assignLiteral_pairs hprepare hget hinteger _ hvalue
      (associativePairs_entries place.name pairs) append⟩
  · exact ⟨_, Table.holdsLast_insertAll _ _, flatMap_inPairs values,
      assignLiteral_pairs hprepare hget hinteger _ hvalue
        (associativePairs_ofValues place.name values) append⟩

end assignments

/-- Items that go forwards and backwards behind a scalar, a value that is replaced at once, and a
last key without a value. -/
theorem assignLiteral_places_backwards :
    let scalar : Binding := ⟨.scalar "x", .none, 0⟩
    let table : Table String := Table.empty.insert "k" "1"
    let shell : Shell := ⟨⟨[], ⟨"global", [],
      (Table.empty.insert "s" scalar).insert "t" ⟨.associative table, .none, 0⟩⟩, .standard⟩, false,
      "script", 0⟩
    (∃ elements : IndexedArray, elements.get? 0 = some "x" ∧ elements.get? 1 = some "d" ∧
      elements.get? 4 = some "c" ∧
      PutsArray ((evaluators 1).assignLiteral "s" (ofIndexed
          [(none, "a"), (some 3, "b"), (none, "c"), (some 1, "d"), (none, "e")]) .nearest true)
        "s" .nearest ⟨.nearest, "s"⟩ scalar (.indexed elements) shell) ∧
    (∃ elements : IndexedArray, elements.get? 1 = some "a" ∧ elements.get? 2 = some "z" ∧
      PutsArray ((evaluators 1).appendLiteral "s" ["a", "b"] (Table.empty.insert "2" "z")) "s"
        .nearest ⟨.nearest, "s"⟩ scalar (.indexed elements) shell) ∧
    ∃ pairs, pairs.flatMap (fun pair => [pair.1, pair.2]) = ["k", "2", "j", ""] ∧
      PutsArray ((evaluators 1).assignLiteral "t" (ofValues ["k", "2", "j"]) .nearest true) "t"
        .nearest ⟨.nearest, "t"⟩ ⟨.associative table, .none, 0⟩
        (.associative (table.insertAll pairs)) shell := by
  intro scalar table shell
  have hscalar : shell.store.prepare "s" .nearest = .ok (⟨.nearest, "s"⟩, shell.store) := by decide
  have htable : shell.store.prepare "t" .nearest = .ok (⟨.nearest, "t"⟩, shell.store) := by decide
  obtain ⟨hnumbered, -⟩ := assignLiteral_places hscalar rfl rfl rfl 0
  obtain ⟨hassign, happend⟩ := hnumbered nofun
  obtain ⟨elements, hlast, hput⟩ := hassign
    [(none, "a"), (some 3, "b"), (none, "c"), (some 1, "d"), (none, "e")] true (by decide)
  obtain ⟨appended, hget, hput'⟩ := happend rfl ["a", "b"] (Table.empty.insert "2" "z") [(2, "z")]
    (by decide) (by decide)
  obtain ⟨pairs, -, hpairs, hput''⟩ :=
    ((assignLiteral_places htable rfl rfl rfl 0).2 table rfl true).2 ["k", "2", "j"]
  have hplaced : placed 1 [(none, "a"), (some 3, "b"), (none, "c"), (some 1, "d"), (none, "e")] =
      [(1, "a"), (3, "b"), (4, "c")] ++ (1, "d") :: [(2, "e")] := rfl
  exact ⟨⟨elements, hlast.other (by decide), hlast.last hplaced (by decide),
    @HoldsLast.last _ _ _ _ hlast [(1, "a"), (3, "b")] [(1, "d"), (2, "e")] 4 "c" rfl (by decide),
    hput⟩, ⟨appended, hget 1, hget 2, hput'⟩, pairs, hpairs, hput''⟩

end Evaluators

end ShellExpansion
