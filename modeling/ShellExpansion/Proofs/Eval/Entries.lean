import ShellExpansion.Builtin.Listing
import ShellExpansion.Eval.Word
import ShellExpansion.Proofs.Arith.Range
import ShellExpansion.Proofs.Arith.RoundTrip
import ShellExpansion.Proofs.Eval.PlainNumber
import ShellExpansion.Proofs.Eval.Running
import ShellExpansion.Proofs.Lexical.Subscript
import ShellExpansion.Proofs.Parameter.Elements
import ShellExpansion.Proofs.Text.Decimal

/-! # Arrays from their entries

A literal in which every item has a key makes the array with these entries.  The keys of an indexed
array are evaluated: the decimal text of an index means the index (`index_toString`).  Entries that
come in ascending order, or under keys that are not there yet, go behind those that are there, so
that all entries of an array make the array again (`insertItems_entries`, `insertPairs_entries`).
An array that is assigned so takes the place of the value and leaves the attributes
(`assignLiteral_index_run`, `assignLiteral_associative_run`). -/

namespace ShellExpansion

/-! ### Entries -/

namespace IndexedArray

theorem eq_of_entries_eq {a b : IndexedArray} (h : a.entries = b.entries) : a = b := by
  cases a
  cases b
  cases h
  rfl

theorem insertEntry_of_lt {index : Nat} (value : String) {entries : List (Nat × String)}
    (h : ∀ entry ∈ entries, entry.1 < index) :
    insertEntry index value entries = entries ++ [(index, value)] := by
  induction entries with
  | nil => rfl
  | cons entry entries ih =>
      have hentry := h entry List.mem_cons_self
      have hlt : ¬index < entry.1 := by omega
      have hne : ¬entry.1 = index := by omega
      rw [insertEntry, if_neg hlt, if_neg hne, ih fun e he => h e (List.mem_cons_of_mem entry he)]
      rfl

/-- The array with its values changed and its indices kept. -/
def mapValues (f : String → String) (a : IndexedArray) : IndexedArray where
  entries := a.entries.map fun entry => (entry.1, f entry.2)
  ascending := by
    rw [List.map_map]
    exact a.ascending

theorem entries_mapValues (f : String → String) (a : IndexedArray) :
    (a.mapValues f).entries = a.entries.map fun entry => (entry.1, f entry.2) := rfl

theorem indices_mapValues (f : String → String) (a : IndexedArray) :
    (a.mapValues f).indices = a.indices :=
  List.map_map

theorem values_mapValues (f : String → String) (a : IndexedArray) :
    (a.mapValues f).values = a.values.map f := by
  simp [values, mapValues]

theorem mapValues_eq_self_iff {f : String → String} {a : IndexedArray} :
    a.mapValues f = a ↔ ∀ value ∈ a.values, f value = value := by
  have hentries : a.mapValues f = a ↔
      a.entries.map (fun entry => (entry.1, f entry.2)) = a.entries.map id := by
    rw [List.map_id]
    exact ⟨congrArg entries, fun h => eq_of_entries_eq h⟩
  rw [hentries, List.map_inj_left, values, List.forall_mem_map]
  simp [Prod.ext_iff]

end IndexedArray

namespace Table

variable {α : Type}

theorem eq_of_entries_eq {t u : Table α} (h : t.entries = u.entries) : t = u := by
  cases t
  cases u
  cases h
  rfl

theorem insertEntry_of_not_mem {key : String} (a : α) {entries : List (String × α)}
    (h : key ∉ entries.map Prod.fst) : insertEntry key a entries = entries ++ [(key, a)] := by
  induction entries with
  | nil => rfl
  | cons entry entries ih =>
      rw [List.map_cons, List.mem_cons, not_or] at h
      rw [insertEntry, if_neg (Ne.symm h.1), ih h.2]
      rfl

end Table

/-- The array has the entries; an index that expressions can stand for is its decimal text. -/
inductive Value.HasEntries : Value → List (String × String) → Prop
  | indexed {elements : IndexedArray} (h : ∀ index ∈ elements.indices, index < 2 ^ 63) :
      HasEntries (.indexed elements)
        (elements.entries.map fun entry => (toString entry.1, entry.2))
  | associative (elements : Table String) : HasEntries (.associative elements) elements.entries

namespace Value

variable {value : Value}

theorem exists_of_kind?_indexed (h : value.kind? = some .indexed) :
    ∃ elements, value = .indexed elements := by
  cases value <;> first | exact ⟨_, rfl⟩ | cases h

theorem exists_of_kind?_associative (h : value.kind? = some .associative) :
    ∃ elements, value = .associative elements := by
  cases value <;> first | exact ⟨_, rfl⟩ | cases h

end Value

theorem Value.HasEntries.assignedText?_eq {value : Value} {entries : List (String × String)}
    (h : value.HasEntries entries) (quote : String → String) :
    Builtin.assignedText? quote value = some (Builtin.itemsText quote entries) := by
  cases h <;> rfl

/-- A value with entries is of a kind that a declaration makes of no value. -/
theorem Value.HasEntries.exists_converted {value : Value} {entries : List (String × String)}
    (h : value.HasEntries entries) :
    ∃ kind empty, value.kind? = some kind ∧ kind ≠ .reference ∧ value.isReference = false ∧
      empty.kind? = some kind ∧ empty.isReference = false ∧
      ∀ name, Store.converted name .unset kind = .ok empty := by
  cases h with
  | indexed =>
      exact ⟨.indexed, .indexed .empty, rfl, by decide, rfl, rfl, rfl, fun _ => rfl⟩
  | associative elements =>
      exact ⟨.associative, .associative .empty, rfl, by decide, rfl, rfl, rfl, fun _ => rfl⟩

/-! ### Indices -/

theorem Lexical.readableKey_toString (n : Nat) : ReadableKey (toString n) := by
  have hdigits : ∀ d < 10, isKeyChar (Nat.digitChar d) = true := by decide
  exact ReadableKey.of_forall (List.all_eq_true.mpr (Text.forall_mem_toString hdigits n))

/-- All indices of an array are read back as keys. -/
theorem Lexical.readableKey_of_mem_indexed (elements : IndexedArray) :
    ∀ entry ∈ elements.entries.map fun entry => (toString entry.1, entry.2),
      ReadableKey entry.1 := by
  intro entry hentry
  obtain ⟨entry, -, rfl⟩ := List.mem_map.mp hentry
  exact readableKey_toString entry.1

/-! ### Decimal texts -/

/-- The text of an integer names no variable. -/
theorem isIdentifier_decimal (m : Int) : isIdentifier (toString m) = false := by
  have hstart : ∀ c ∈ (toString m).toList, isNameStart c = false :=
    Text.forall_mem_decimal (by decide) (by decide) m
  obtain ⟨c, rest, htext⟩ := Text.exists_cons_decimal m
  rw [htext] at hstart
  unfold isIdentifier
  rw [htext]
  dsimp only
  rw [hstart c List.mem_cons_self]
  rfl

/-- An integer of the range is written in expressions as its decimal text. -/
theorem Arith.integerText_of_fits {m : Int} (h : Fits m) : integerText m = toString m := by
  obtain ⟨hlow, hhigh⟩ := h
  cases m with
  | ofNat n =>
      have hn : n ≤ 2 ^ 63 := Nat.le_of_lt (Int.ofNat_lt.mp hhigh)
      exact numeral_of_le hn
  | negSucc n =>
      have hn : n + 1 ≤ 2 ^ 63 := by omega
      rw [integerText, numeral_of_le hn]
      rfl

namespace Evaluators

open Eval ArrayLiteral

/-- There is a level below the outermost one. -/
theorem exists_nesting_eq (limits : Limits) : ∃ levels, limits.nesting = levels + 1 :=
  ⟨999 + limits.arithmeticDepth.toNat, by rw [Limits.nesting]; omega⟩

/-- An integer that is written in an expression is wrapped. -/
theorem expr_ofInt (deeper : Evaluators) (source : String) (c : Int) :
    deeper.expr source (.ofInt c) = pure (Arith.wrap c) := by
  cases c with
  | ofNat n =>
      rw [Arith.Expr.ofInt, expr]
      rfl
  | negSucc n =>
      rw [Arith.Expr.ofInt, expr, expr, pure_bind, Arith.UnaryOp.apply, Arith.wrap_neg_wrap]
      rfl

/-- The text of an integer means the integer, wrapped. -/
theorem evaluate_integerText (levels : Nat) (c : Int) :
    (evaluators (levels + 1)).evaluate (Arith.integerText c) = pure (Arith.wrap c) := by
  unfold evaluate
  rw [Arith.parse_integerText]
  exact expr_ofInt (evaluators levels) _ c

/-- **The decimal text of an integer means the integer**, if it is in the range. -/
theorem evaluate_decimal {m : Int} (h : Arith.Fits m) (levels : Nat) :
    (evaluators (levels + 1)).evaluate (toString m) = pure m := by
  rw [← Arith.integerText_of_fits h, evaluate_integerText, Arith.wrap_of_fits h]

/-- The decimal text of an integer is a constant behind the sign of the integer. -/
theorem exists_signedConstant (m : Int) : ∃ c : Arith.SignedConstant, c.text = toString m ∧
    c.constant = toString m.natAbs ∧ c.signed m.natAbs = m := by
  obtain ⟨digit, others, htext⟩ : ∃ digit others, (toString m.natAbs).toList = digit :: others :=
    Text.exists_cons_decimal m.natAbs
  have hdigits : ∀ d ∈ (toString m.natAbs).toList, d.isDigit = true :=
    Text.forall_mem_toString (by decide) m.natAbs
  rw [htext] at hdigits
  have hothers : ∀ d ∈ others, Arith.isPlainChar d = true :=
    fun d hd => Arith.isPlainChar_of_isDigit (hdigits d (List.mem_cons_of_mem digit hd))
  have hconstant : String.ofList (digit :: others) = toString m.natAbs := by
    rw [← htext, String.ofList_toList]
  cases m with
  | ofNat n =>
      refine ⟨⟨none, [], digit, others, by simp, by simp, hdigits digit List.mem_cons_self,
        hothers⟩, ?_, hconstant, rfl⟩
      rw [Arith.SignedConstant.text, Arith.SignedConstant.constant, String.toList_ofList]
      exact hconstant
  | negSucc n =>
      refine ⟨⟨some .neg, [], digit, others, by simp, by simp, hdigits digit List.mem_cons_self,
        hothers⟩, ?_, hconstant, rfl⟩
      rw [Arith.SignedConstant.text, Arith.SignedConstant.constant, String.toList_ofList]
      show String.ofList ('-' :: digit :: others) = "-" ++ toString (n + 1)
      rw [← String.toList_inj, String.toList_ofList, String.toList_append]
      exact congrArg (List.cons '-') htext.symm

/-- **The decimal text of an integer stands for the integer**, if it is in the range. -/
theorem valueOf_decimal {m : Int} (hm : Arith.Fits m) (deeper : Evaluators) (source : String) :
    deeper.valueOf source (some (toString m)) = pure m := by
  obtain ⟨c, htext, hconstant, hsigned⟩ := exists_signedConstant m
  have hle : m.natAbs ≤ 2 ^ 63 := by
    obtain ⟨hlow, hhigh⟩ := hm
    omega
  rw [← htext, valueOf_text, hconstant, ← Arith.numeral_of_le hle, Arith.constant_numeral]
  dsimp only
  rw [hsigned, Arith.wrap_of_fits hm]

section indices

variable {n : Nat} (h : n < 2 ^ 63) (levels : Nat)

include h

theorem evaluate_toString :
    (evaluators (levels + 1)).evaluate (toString n) = pure (n : Int) :=
  evaluate_decimal ⟨by omega, Int.ofNat_lt.mpr h⟩ levels

/-- **The decimal text of an index means the index.** -/
theorem index_toString (name : String) :
    (evaluators (levels + 1)).index name (toString n) = pure (n : Int) := by
  have hblank : Text.allBlank (toString n) = false := Text.allBlank_decimal n
  rw [index, hblank, if_neg Bool.false_ne_true, evaluate_toString h]

end indices

/-! ### Items -/

theorem stored_text (deeper : Evaluators) (value : String) :
    deeper.stored false value none = pure value := by
  show pure ("" ++ value) = _
  rw [String.empty_append]

/-- The entries of an indexed array make it when they are written one after the other. -/
theorem insertItems_entries (levels : Nat) (name : String) {elements : IndexedArray}
    (hindices : ∀ index ∈ elements.indices, index < 2 ^ 63) :
    ∀ {front rest : List (Nat × String)} {running : Nat} {current : IndexedArray},
      elements.entries = front ++ rest → current.entries = front →
        (evaluators (levels + 1)).insertItems name false
          (rest.map fun entry => ⟨some (toString entry.1), entry.2⟩) running current =
            pure elements := by
  intro front rest
  induction rest generalizing front with
  | nil =>
      intro running current helements hcurrent
      rw [List.append_nil, ← hcurrent] at helements
      rw [IndexedArray.eq_of_entries_eq helements]
      rfl
  | cons entry rest ih =>
      intro running current helements hcurrent
      have hmem : entry ∈ elements.entries := by simp [helements]
      have hindex : entry.1 < 2 ^ 63 := hindices entry.1 (List.mem_map_of_mem hmem)
      have hlt : ∀ other ∈ front, other.1 < entry.1 := by
        have hascending := elements.ascending
        rw [helements, List.map_append, List.pairwise_append] at hascending
        intro other hother
        exact hascending.2.2 _ (List.mem_map_of_mem hother) _ (by simp)
      have hnext : (current.insert entry.1 entry.2).entries = front ++ [entry] := by
        show IndexedArray.insertEntry _ _ current.entries = _
        rw [hcurrent, IndexedArray.insertEntry_of_lt entry.2 hlt]
      rw [List.map_cons, insertItems]
      dsimp only
      rw [index_toString hindex, pure_bind]
      show (pure entry.1 >>= _) = _
      rw [pure_bind, stored_text, pure_bind]
      exact ih (by rw [helements, List.append_assoc]; rfl) hnext

theorem insertItems_allEntries (levels : Nat) (name : String) {elements : IndexedArray}
    (hindices : ∀ index ∈ elements.indices, index < 2 ^ 63) :
    (evaluators (levels + 1)).insertItems name false
      (elements.entries.map fun entry => ⟨some (toString entry.1), entry.2⟩) 0 .empty =
        pure elements :=
  insertItems_entries levels name hindices (List.nil_append _).symm rfl

/-- The entries of a table make it when they are written one after the other. -/
theorem insertPairs_entries (deeper : Evaluators) {elements : Table String} :
    ∀ {front rest : List (String × String)} {current : Table String},
      elements.entries = front ++ rest → current.entries = front →
        deeper.insertPairs false rest current = pure elements := by
  intro front rest
  induction rest generalizing front with
  | nil =>
      intro current helements hcurrent
      rw [List.append_nil, ← hcurrent] at helements
      rw [Table.eq_of_entries_eq helements]
      rfl
  | cons entry rest ih =>
      intro current helements hcurrent
      have hnew : entry.1 ∉ front.map Prod.fst := by
        have hnodup := elements.nodup
        rw [helements, List.map_append, List.nodup_append] at hnodup
        exact fun hmem => hnodup.2.2 _ hmem _ (by simp) rfl
      have hnext : (current.insert entry.1 entry.2).entries = front ++ [entry] := by
        show Table.insertEntry _ _ current.entries = _
        rw [hcurrent, Table.insertEntry_of_not_mem entry.2 hnew]
      rw [insertPairs, stored_text, pure_bind]
      exact ih (by rw [helements, List.append_assoc]; rfl) hnext

theorem associativePairs_entries (name : String) (entries : List (String × String)) :
    associativePairs name ⟨entries.map fun entry => ⟨some entry.1, entry.2⟩⟩ = .ok entries := by
  cases entries with
  | nil => rfl
  | cons entry entries =>
      have hkeys : hasKeys ⟨(entry :: entries).map fun entry => ⟨some entry.1, entry.2⟩⟩ = true :=
        rfl
      rw [associativePairs, if_pos hkeys, List.mapM_map]
      exact List.mapM_pure.trans (congrArg pure (List.map_id _))

/-! ### Assignments of whole arrays -/

theorem putArray_run (place : Store.Place) (value : Value) (shell : Shell) :
    putArray place value shell =
      let b := shell.store.get place
      (.ok (), { shell with
        store := shell.store.put place ⟨value, b.attributes, b.generation + 1⟩ }) :=
  rfl

/-- A value that was worked out for an element goes into an array that is no other by then. -/
theorem putElement_run {place : Store.Place} {begun : Binding} {shell : Shell}
    (h : (shell.store.get place).generation = begun.generation) (update : Value → Value) :
    putElement place begun update shell = (.ok (), { shell with
      store := shell.store.putValue place (update (shell.store.get place).value) }) := by
  unfold putElement
  rw [store_bind_run, if_pos h]
  rfl

/-- A literal that is assigned to a name is assigned as a whole. -/
theorem assign_of_isLiteral (deeper : Evaluators) {name text : String}
    (hname : isIdentifier name = true) (htext : isLiteral text = true) (scope : Scope)
    (append : Bool) :
    deeper.assign name text scope append =
      deeper.assignLiteral name (ArrayLiteral.ofText text) scope append := by
  rw [assign, splitSubscript_of_isIdentifier hname]
  dsimp only
  rw [if_pos htext]

section assignments

variable (deeper : Evaluators) {name : String} {scope : Scope} {shell : Shell}
  {place : Store.Place} {prepared : Store} {b : Binding} {literal : ArrayLiteral}
  (hprepare : shell.store.prepare name scope = .ok (place, prepared))
  (hget : prepared.get place = b)

include hprepare hget

/-- **The items of a literal make an indexed array**, in place of the elements that the variable
counts as, or in addition to them. -/
theorem assignLiteral_index_run (hreference : b.value.isReference = false)
    (hkind : b.value.kind? ≠ some .associative) (append : Bool) {old elements : IndexedArray}
    (hold : old = if append then sliceable b.value else .empty)
    (hitems : deeper.insertItems place.name b.attributes.integer literal.items old.bound old =
      pure elements) :
    deeper.assignLiteral name literal scope append shell =
      (.ok place, { shell with
        store := prepared.put place ⟨.indexed elements, b.attributes, b.generation + 1⟩ }) := by
  have hrest : (do
        let elements ← deeper.insertItems place.name b.attributes.integer literal.items
          old.bound old
        putArray place (.indexed elements)
        return place) { shell with store := prepared } =
      (.ok place, { shell with
        store := prepared.put place ⟨.indexed elements, b.attributes, b.generation + 1⟩ }) := by
    rw [hitems, pure_bind, bind_run_of_ok (putArray_run place _ _), hget]
    rfl
  subst hold
  unfold assignLiteral
  rw [bind_run_of_ok (change_run_of_ok hprepare), store_bind_run, hget]
  cases hvalue : b.value with
  | reference target =>
      rw [hvalue] at hreference
      cases hreference
  | associative elements =>
      rw [hvalue] at hkind
      exact absurd rfl hkind
  | _ =>
      rw [hvalue] at hrest
      exact hrest

/-- The items make an indexed array where there was one or no value. -/
theorem assignLiteral_indexed_run {elements : IndexedArray}
    (hvalue : b.value = .unset ∨ ∃ old, b.value = .indexed old)
    (hitems : deeper.insertItems place.name b.attributes.integer literal.items 0 .empty =
      pure elements) :
    deeper.assignLiteral name literal scope false shell =
      (.ok place, { shell with
        store := prepared.put place ⟨.indexed elements, b.attributes, b.generation + 1⟩ }) := by
  have hreference : b.value.isReference = false := by
    rcases hvalue with hvalue | ⟨old, hvalue⟩ <;> rw [hvalue] <;> rfl
  have hkind : b.value.kind? ≠ some .associative := by
    rcases hvalue with hvalue | ⟨old, hvalue⟩ <;> rw [hvalue] <;> nofun
  exact assignLiteral_index_run deeper hprepare hget hreference hkind false rfl hitems

/-- **The items of a literal make an associative array** where there was one, in its place or in
addition to it. -/
theorem assignLiteral_associative_run {elements old : Table String}
    (hvalue : b.value = .associative old) {pairs : List (String × String)}
    (hpairs : associativePairs place.name literal = .ok pairs) (append : Bool)
    (hitems : deeper.insertPairs b.attributes.integer pairs (if append then old else Table.empty) =
      pure elements) :
    deeper.assignLiteral name literal scope append shell =
      (.ok place, { shell with
        store := prepared.put place ⟨.associative elements, b.attributes, b.generation + 1⟩ }) := by
  unfold assignLiteral
  rw [bind_run_of_ok (change_run_of_ok hprepare), store_bind_run, hget, hvalue]
  dsimp only
  rw [bind_run_of_ok (query_run_of_ok hpairs), hitems, pure_bind,
    bind_run_of_ok (putArray_run place _ _), hget]
  rfl

/-- **The entries of an array make it** where there was an array of its kind. -/
theorem assignLiteral_entries_run (levels : Nat) {value : Value} {entries : List (String × String)}
    (hentries : value.HasEntries entries) (hkind : b.value.kind? = value.kind?)
    (hinteger : b.attributes.integer = false) :
    (evaluators (levels + 1)).assignLiteral name ⟨entries.map fun entry => ⟨some entry.1, entry.2⟩⟩
        scope false shell =
      (.ok place, { shell with
        store := prepared.put place ⟨value, b.attributes, b.generation + 1⟩ }) := by
  cases hentries with
  | @indexed elements hindices =>
      have hitems := insertItems_allEntries levels place.name hindices
      apply assignLiteral_indexed_run _ hprepare hget (.inr (Value.exists_of_kind?_indexed hkind))
      rw [hinteger, List.map_map]
      exact hitems
  | associative elements =>
      obtain ⟨old, hold⟩ := Value.exists_of_kind?_associative hkind
      have hpairs := associativePairs_entries place.name elements.entries
      apply assignLiteral_associative_run _ hprepare hget hold hpairs
      rw [hinteger, if_neg Bool.false_ne_true]
      exact insertPairs_entries _ rfl rfl

end assignments

end Evaluators

end ShellExpansion
