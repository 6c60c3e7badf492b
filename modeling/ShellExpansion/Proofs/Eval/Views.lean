import ShellExpansion.Proofs.Eval.Placing
import ShellExpansion.Session.Basic

/-! # Views of arrays

Keys, values, the number of elements, single elements and slices are views of one map, whatever a
name leads to: a scalar counts as one element at index zero, and a variable without a value, a
reference without a target and an unbound name have no elements (`Eval.views_agree`).  An index is
listed by its decimal text, which is read back as the index, and a scalar is asked by this text.  An
index with more digits than a number may have cannot be listed, and a scalar cannot be asked for it;
it is beyond all that can be written, but counting leads to it
(`Eval.views_disagree_beyond_numerals`). -/

namespace ShellExpansion.Eval

variable {shell : Shell} {name final : String} {found : Option Binding} {value : Value}

/-! ### What the views are -/

/-- All views show the elements of the value, which have indices. -/
structure ViewsByIndex (name : String) (value : Value) (elements : IndexedArray) (shell : Shell) :
    Prop where
  ascending : elements.indices.Pairwise (· < ·)
  /-- The texts of the indices are the keys, if all of them can be written. -/
  keys : (∀ index ∈ elements.indices, Text.isWritable index = true) →
    allKeys name shell = (.ok (elements.indices.map toString), shell)
  /-- Otherwise there are none. -/
  no_keys {index : ℕ} (hindex : index ∈ elements.indices)
      (hlong : Text.isWritable index = false) :
    allKeys name shell = (.error .numberTooLong, shell)
  distinct : (elements.indices.map (toString : ℕ → String)).Nodup
  values : allValues name shell = (.ok elements.values, shell)
  same_length : elements.indices.length = elements.values.length
  count : countElements name shell = (.ok elements.values.length, shell)
  /-- Each key selects its value, as an index and as a text. -/
  element (i : ℕ) {index : ℕ} {value : String} (hindex : elements.indices[i]? = some index)
      (hvalue : elements.values[i]? = some value) :
    getElement? name (.index index) shell = (.ok (some value), shell) ∧
      (Text.isWritable index = true →
        getElement? name (.text (toString index)) shell = (.ok (some value), shell))
  missing (index : ℕ) (hindex : index ∉ elements.indices) (hallowed : value.AllowsIndex index) :
    getElement? name (.index index) shell = (.ok none, shell)
  /-- Behind the largest index the bound lies, from which negative indices count. -/
  bound : (∀ index ∈ elements.indices, index < elements.bound) ∧
    (elements.indices = [] ∧ elements.bound = 0 ∨
      ∃ index ∈ elements.indices, elements.bound = index + 1)
  fromEnd (k : ℕ) (hk : 1 ≤ k) (hallowed : value.AllowsIndex (-k)) :
    getElement? name (.index (-k)) shell =
      if k ≤ elements.bound then getElement? name (.index (elements.bound - k : ℕ)) shell
      else (.ok none, shell)
  /-- A scalar is not asked for an index that is too long to be written. -/
  refused (index : ℤ) (hallowed : ¬value.AllowsIndex index) :
    getElement? name (.index index) shell = (.error .numberTooLong, shell)
  /-- A slice has the values at an index and above. -/
  slice (start : ℤ) (count : Option ℕ) :
    let first : ℤ := if 0 ≤ start then start else elements.bound + start
    let selected := if first < 0 then []
      else (elements.entries.filter fun entry => first ≤ entry.1).map Prod.snd
    slice name start (count.map Int.ofNat) shell =
      (.ok (count.elim selected selected.take), shell)

/-- All views show the elements, which have texts as their keys. -/
structure ViewsByText (name : String) (elements : Table String) (shell : Shell) : Prop where
  keys : allKeys name shell = (.ok elements.keys, shell)
  distinct : elements.keys.Nodup
  values : allValues name shell = (.ok elements.values, shell)
  same_length : elements.keys.length = elements.values.length
  count : countElements name shell = (.ok elements.values.length, shell)
  element (i : ℕ) {key value : String} (hkey : elements.keys[i]? = some key)
      (hvalue : elements.values[i]? = some value) :
    getElement? name (.text key) shell = (.ok (some value), shell)
  missing (key : Key) {text : String} (htext : key.toText = .ok text)
      (hkey : text ∉ elements.keys) :
    getElement? name key shell = (.ok none, shell)
  /-- A slice has the values from a position on. -/
  slice (start : ℤ) (count : Option ℕ) :
    let first : ℤ := if 0 ≤ start then start else elements.values.length + start
    let selected := if first < 0 then [] else elements.values.drop first.toNat
    slice name start (count.map Int.ofNat) shell =
      (.ok (count.elim selected selected.take), shell)

/-! ### The views of a value -/

section views

variable (hvalue : valueNamed name shell = (.ok value, shell))

include hvalue

section numbered

variable (hkind : value.kind? ≠ some .associative)

include hkind

/-- The decimal text of an index selects what the index selects. -/
theorem getElement?_toString {index : ℕ} (h : Text.isWritable index = true) :
    getElement? name (.text (toString index)) shell =
      (.ok ((sliceable value).get? index), shell) := by
  cases value with
  | scalar text =>
      -- A scalar is read by the text of its key, which is the same for a key that is an index.
      have hsame : (Key.text (toString index)).toText = (Key.index index).toText :=
        (Key.toText_of_writable h).symm
      have hread : getElement? name (.text (toString index)) shell =
          getElement? name (.index index) shell := by
        rw [getElement?, getElement?, bind_run_of_ok hvalue, bind_run_of_ok hvalue]
        dsimp only
        rw [textOf, textOf, hsame]
      rw [hread, getElement?_index hvalue hkind fun _ _ => h]
      rfl
  | _ =>
      refine getElement?_toIndex hvalue hkind (fun text heq => ?_) (Key.toIndex_toString h)
      cases heq

/-- A slice is cut out of the values at an index and above. -/
theorem slice_indices (start : ℤ) (count : Option ℕ) :
    let elements := sliceable value
    let first := elements.fromEnd start
    let selected := if first < 0 then [] else elements.valuesFrom first
    slice name start (count.map Int.ofNat) shell =
      (.ok (count.elim selected selected.take), shell) := by
  unfold slice
  cases value with
  | associative elements => exact absurd rfl hkind
  | _ =>
      cases count with
      | none =>
          dsimp only [Option.map_none]
          rw [bind_run_of_ok hvalue]
          rfl
      | some n =>
          have hn : ¬Int.ofNat n < 0 := Int.not_lt.mpr (Int.natCast_nonneg n)
          dsimp only [Option.map_some]
          rw [if_neg hn, bind_run_of_ok hvalue]
          rfl

end numbered

/-- A slice of an associative array is cut out of the values from a position on. -/
theorem slice_positions {elements : Table String} (h : value = .associative elements) (start : ℤ)
    (count : Option ℕ) :
    let first := if start < 0 then start + elements.values.length else start
    let selected := if first < 0 then [] else elements.values.drop first.toNat
    slice name start (count.map Int.ofNat) shell =
      (.ok (count.elim selected selected.take), shell) := by
  subst h
  unfold slice
  cases count with
  | none =>
      dsimp only [Option.map_none]
      rw [bind_run_of_ok hvalue]
      rfl
  | some n =>
      have hn : ¬Int.ofNat n < 0 := Int.not_lt.mpr (Int.natCast_nonneg n)
      dsimp only [Option.map_some]
      rw [if_neg hn, bind_run_of_ok hvalue]
      rfl

end views

/-! ### All views together -/

theorem countElements_run {values : List String} (h : allValues name shell = (.ok values, shell)) :
    countElements name shell = (.ok values.length, shell) := by
  rw [countElements, bind_run_of_ok h]
  rfl

/-- An index at which a value has an element may be looked up in it. -/
theorem allowsIndex_of_mem {index : ℕ} (hindex : index ∈ (sliceable value).indices) :
    value.AllowsIndex index := by
  rintro text rfl
  obtain rfl : index = 0 := List.mem_singleton.mp hindex
  decide

/-- Only an indexed array has an element at an index that cannot be written. -/
theorem exists_indexed_of_unwritable {index : ℕ} (hindex : index ∈ (sliceable value).indices)
    (hlong : Text.isWritable index = false) : ∃ elements, value = .indexed elements := by
  cases value with
  | indexed elements => exact ⟨elements, rfl⟩
  | scalar text =>
      have hwritable := allowsIndex_of_mem hindex text rfl
      rw [hlong] at hwritable
      cases hwritable
  | _ => cases hindex

theorem viewsByIndex (hvalue : valueNamed name shell = (.ok value, shell))
    (hkind : value.kind? ≠ some .associative) :
    ViewsByIndex name value (sliceable value) shell where
  ascending := (sliceable value).ascending
  keys := allKeys_of_value hvalue hkind
  no_keys hindex hlong := by
    obtain ⟨elements, rfl⟩ := exists_indexed_of_unwritable hindex hlong
    exact allKeys_of_unwritable hvalue rfl hindex hlong
  distinct := by
    have hnodup : (sliceable value).indices.Nodup :=
      (sliceable value).ascending.imp fun hlt => Nat.ne_of_lt hlt
    exact hnodup.map fun _ _ heq => Text.toString_nat_inj.mp heq
  values := allValues_of_value hvalue hkind
  same_length := by rw [IndexedArray.indices, IndexedArray.values, List.length_map, List.length_map]
  count := countElements_run (allValues_of_value hvalue hkind)
  element i {index value'} hindex hvalue' := by
    have hget := IndexedArray.get?_of_getElem? hindex hvalue'
    have hallowed := allowsIndex_of_mem (List.mem_of_getElem? hindex)
    refine ⟨?_, fun hwritable => ?_⟩
    · rw [getElement?_index hvalue hkind hallowed, ← hget]
      rfl
    · rw [getElement?_toString hvalue hkind hwritable, hget]
  missing index hindex hallowed := by
    rw [getElement?_index hvalue hkind hallowed, ← IndexedArray.get?_eq_none_iff.mpr hindex]
    rfl
  bound := by
    obtain ⟨hlt, hlast⟩ := (sliceable value).bound_spec
    refine ⟨List.forall_mem_map.mpr hlt, hlast.imp ?_ ?_⟩
    · rintro ⟨hnil, hbound⟩
      exact ⟨congrArg (List.map Prod.fst) hnil, hbound⟩
    · rintro ⟨entry, hentry, hbound⟩
      exact ⟨entry.1, List.mem_map_of_mem hentry, hbound⟩
  fromEnd k hk hallowed := by
    have hbound : value.AllowsIndex ((sliceable value).bound - k : ℕ) := by
      rintro text rfl
      have hle : (sliceable (.scalar text)).bound - k = 0 := Nat.sub_eq_zero_of_le hk
      rw [hle]
      decide
    rw [getElement?_index hvalue hkind hallowed, getElement?_index hvalue hkind hbound,
      IndexedArray.getFromEnd?_neg hk]
    split_ifs <;> rfl
  refused index hallowed := by
    obtain ⟨text, rfl, hlong⟩ : ∃ text, value = .scalar text ∧ ¬Text.isWritable index = true := by
      unfold Value.AllowsIndex at hallowed
      push Not at hallowed
      exact hallowed
    exact getElement?_unwritable hvalue (.inr ⟨text, rfl⟩) (Bool.eq_false_iff.mpr hlong)
  slice := slice_indices hvalue hkind

theorem viewsByText {elements : Table String}
    (hvalue : valueNamed name shell = (.ok (.associative elements), shell)) :
    ViewsByText name elements shell where
  keys := allKeys_of_associative hvalue rfl
  distinct := elements.nodup
  values := allValues_of_associative hvalue rfl
  same_length := by rw [Table.keys, Table.values, List.length_map, List.length_map]
  count := countElements_run (allValues_of_associative hvalue rfl)
  element i {key value'} hkey hvalue' := by
    rw [readsByText_of_value hvalue (.text key) key rfl, ← Table.get?_of_getElem? hkey hvalue']
  missing key text htext hkey := by
    rw [readsByText_of_value hvalue key text htext, Table.get?_eq_none_iff.mpr hkey]
  slice start count := by
    have hfirst : (if start < 0 then start + (elements.values.length : ℤ) else start) =
        if 0 ≤ start then start else elements.values.length + start := by
      split_ifs <;> omega
    have hslice := slice_positions hvalue rfl start count
    rw [hfirst] at hslice
    exact hslice

/-- **The views of an array agree.**  Let a name resolve.  If it leads to an associative array, the
keys differ, there are as many values, the number of elements is their number, each key selects its
value and other keys none, and a slice is cut out by position.  In all other cases this holds of
indices, which ascend, in place of keys and positions; negative indices count from the bound.  The
indices are listed and read as decimal texts, and a scalar is asked for them, if they have no more
digits than a number may have. -/
theorem views_agree (hresolve : shell.store.resolve name = .ok (final, found)) :
    let value := (found.getD .unset).value
    (value.kind? ≠ some .associative → ViewsByIndex name value (sliceable value) shell) ∧
      ∀ elements, value = .associative elements → ViewsByText name elements shell := by
  have hvalue := valueNamed_of_resolve hresolve
  exact ⟨viewsByIndex hvalue, fun elements heq => viewsByText (heq ▸ hvalue)⟩

/-- An array with a gap, seen through a reference, and an associative array. -/
theorem views_agree_gap :
    let elements := (IndexedArray.singleton "x").insert 5 "y"
    let table : Table String := (Table.empty.insert "k" "1").insert "j" "2"
    let shell : Shell := ⟨⟨[⟨"f", [], Table.empty.insert "r" ⟨.reference "a", .none, 0⟩⟩],
      ⟨"global", [], (Table.empty.insert "a" ⟨.indexed elements, .none, 0⟩).insert
        "t" ⟨.associative table, .none, 0⟩⟩, .standard⟩, false, "script", 0⟩
    getElement? "r" (.text "5") shell = (.ok (some "y"), shell) ∧
      getElement? "r" (.index (-6)) shell = getElement? "r" (.index 0) shell ∧
      getElement? "r" (.index (-7)) shell = (.ok none, shell) ∧
      slice "r" (-5) (some 1) shell = (.ok ["y"], shell) ∧
      slice "t" (-1) none shell = (.ok ["2"], shell) := by
  intro elements table shell
  have hindexed : shell.store.resolve "r" = .ok ("a", some ⟨.indexed elements, .none, 0⟩) := by
    decide
  have htable : shell.store.resolve "t" = .ok ("t", some ⟨.associative table, .none, 0⟩) := by
    decide
  have hviews := (views_agree hindexed).1 nofun
  have hviews' := (views_agree htable).2 table rfl
  exact ⟨(hviews.element 1 rfl rfl).2 (by decide), hviews.fromEnd 6 (by decide) nofun,
    hviews.fromEnd 7 (by decide) nofun, hviews.slice (-5) (some 1), hviews'.slice (-1) none⟩

/-! ### Indices that are too long to be written -/

/-- The text of such an index is no number. -/
theorem getElement?_toString_unwritable {elements : IndexedArray} {index : ℕ}
    (hvalue : valueNamed name shell = (.ok (.indexed elements), shell))
    (hindex : Text.isWritable index = false) :
    getElement? name (.text (toString index)) shell = (.error .notANumber, shell) := by
  rw [getElement?, bind_run_of_ok hvalue]
  dsimp only
  rw [bind_run, indexOf_run, Key.toIndex_toString_eq_error hindex]

/-- A text that is appended behind the largest index that can be written has no key. -/
theorem views_disagree_behind (levels : ℕ) {n : ℕ} (hnext : Text.isWritable (n + 1 : ℕ) = false) :
    let shell := Shell.new ⟨[], false, [], "bash", .standard⟩
    let deeper := evaluators (levels + 1)
    ∃ first second,
      deeper.setElement "a" (.index n) "x" false .nearest shell = (.ok ⟨.nearest, "a"⟩, first) ∧
      deeper.appendLiteral "a" ["y"] .empty first = (.ok ⟨.nearest, "a"⟩, second) ∧
      getElement? "a" (.index (n + 1 : ℕ)) second = (.ok (some "y"), second) ∧
      getElement? "a" (.text (toString (n + 1))) second = (.error .notANumber, second) ∧
      (∃ values, allValues "a" second = (.ok values, second)) ∧
      allKeys "a" second = (.error .numberTooLong, second) := by
  intro shell deeper
  have htakes : shell.store.TakesElements "a" "a" .unset :=
    ⟨⟨none, by decide, rfl, fun _ => by decide⟩, rfl, rfl, rfl⟩
  obtain ⟨prepared, hprepare, hget⟩ := htakes.exists_prepare
  have hset := @Evaluators.setElement_index_run deeper "a" (.index n) _ _ _ _ _ hprepare hget rfl
    rfl nofun n rfl "x" false
  have hafter := shell.rebound_of_prepare hprepare
    (Binding.unset.withValue (.indexed (IndexedArray.empty.insert n "x")))
  obtain ⟨prepared', hprepare', hget'⟩ := (htakes.after hafter rfl).exists_prepare
  have hnone : (Table.empty : Table String).entries =
      ([] : List (ℕ × String)).map fun written => (toString written.1, written.2) := rfl
  obtain ⟨elements, helements, second, happend, -, hvalue⟩ := Evaluators.appendLiteral_placed hget'
    rfl rfl rfl hprepare' levels nofun ["y"] hnone nofun
  have hvalue := hvalue rfl
  have hlast : elements.get? (n + 1) = some "y" := by
    have hbound : (sliceable (Binding.unset.withValue
        (.indexed (IndexedArray.empty.insert n "x"))).value).bound = n + 1 := rfl
    have hlast := helements (n + 1)
    rw [hbound, if_neg (Nat.lt_irrefl _), Nat.sub_self] at hlast
    exact hlast
  have hmem : n + 1 ∈ elements.indices :=
    List.mem_map_of_mem (IndexedArray.get?_eq_some_iff.mp hlast)
  refine ⟨_, second, hset, happend, ?_, getElement?_toString_unwritable hvalue hnext,
    ⟨_, allValues_of_value hvalue nofun⟩, allKeys_of_unwritable hvalue rfl hmem hnext⟩
  rw [getElement?_index hvalue nofun nofun, ← hlast]
  rfl

/-- The largest index that can be written may be used, and the one behind it can be counted to, but
not written: there are values but no keys, and a scalar has no answer there. -/
theorem views_disagree_beyond_numerals :
    let shell := Shell.new ⟨[], false, [], "bash", .standard⟩
    let deeper := evaluators shell.store.limits.nesting
    let last : ℕ := 10 ^ Text.maxDecimalDigits - 1
    Text.isWritable last = true ∧ (∃ first second,
      deeper.setElement "a" (.index last) "x" false .nearest shell =
        (.ok ⟨.nearest, "a"⟩, first) ∧
      deeper.appendLiteral "a" ["y"] .empty first = (.ok ⟨.nearest, "a"⟩, second) ∧
      getElement? "a" (.index (last + 1 : ℕ)) second = (.ok (some "y"), second) ∧
      getElement? "a" (.text (toString (last + 1))) second = (.error .notANumber, second) ∧
      (∃ values, allValues "a" second = (.ok values, second)) ∧
      allKeys "a" second = (.error .numberTooLong, second)) ∧
    let scalar := { shell with store := shell.store.put ⟨.nearest, "s"⟩ ⟨.scalar "x", .none, 0⟩ }
    getElement? "s" (.index (last + 1 : ℕ)) scalar = (.error .numberTooLong, scalar) := by
  intro shell deeper last
  obtain ⟨levels, hlevels⟩ := Evaluators.exists_nesting_eq shell.store.limits
  have hdeeper : deeper = evaluators (levels + 1) := congrArg evaluators hlevels
  have hpos : 0 < 10 ^ Text.maxDecimalDigits := Nat.pow_pos (by decide)
  have hlast : last + 1 = 10 ^ Text.maxDecimalDigits := by
    unfold last
    exact Nat.sub_add_cancel hpos
  -- The number is too large to be computed.
  clear_value last
  have hnext : Text.isWritable (last + 1 : ℕ) = false := by
    rw [Bool.eq_false_iff, ne_eq, Text.isWritable_iff, hlast]
    exact Nat.lt_irrefl _
  refine ⟨Text.isWritable_iff.mpr (hlast ▸ Nat.lt_succ_self last), ?_, ?_⟩
  · rw [hdeeper]
    exact views_disagree_behind levels hnext
  · intro scalar
    have hresolve : scalar.store.resolve "s" = .ok ("s", some ⟨.scalar "x", .none, 0⟩) := by decide
    exact getElement?_unwritable (valueNamed_of_resolve hresolve) (.inr ⟨"x", rfl⟩) hnext

end ShellExpansion.Eval
