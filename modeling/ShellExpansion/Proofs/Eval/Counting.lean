import ShellExpansion.Proofs.Eval.Range
import ShellExpansion.Proofs.Eval.Writes
import ShellExpansion.Proofs.Store.Indices

/-! # Evaluations keep arrays counted

A subscript that is evaluated is in the range, so that an element that is written under it leaves
the array counted.  The items of a literal go to such indices or count on from one to the next
(`insertItems_counted`).  The key of an associative array may be any numeral; but outside of calls
there is only one array that it can be meant for (`elementKey_lands`).  So all evaluations keep the
arrays counted, on every nesting level (`evaluators_keepCounted`). -/

namespace ShellExpansion

open Arith (Fits)

variable {shell shell' : Shell} {name text : String} {scope : Scope} {place : Store.Place}

/-- Outside of calls a name has one binding, in every scope. -/
theorem Store.at?_of_depth {s : Store} (h : s.depth = 0) (place : Place) :
    s.at? place = s.lookup place.name := by
  obtain ⟨inner, outermost, limits⟩ := s
  obtain rfl : inner = [] := List.length_eq_zero_iff.mp h
  obtain ⟨scope, name⟩ := place
  cases scope <;> simp [Store.at?, find?, Store.lookup, frames, current]

/-- No call is under way, and all arrays satisfy the predicate. -/
structure Shell.AllArrays (p : IndexedArray → Prop) (shell : Shell) : Prop where
  depth : shell.store.depth = 0
  arrays : shell.store.EveryArray p

namespace Shell

/-- No call is under way, and all arrays are counted. -/
abbrev Counted (shell : Shell) : Prop := shell.AllArrays IndexedArray.Counted

/-- No call is under way, and all arrays stay in the range. -/
abbrev InRange (shell : Shell) : Prop := shell.AllArrays IndexedArray.InRange

theorem InRange.counted (h : shell.InRange) : shell.Counted :=
  ⟨h.depth, Store.EveryArray.mono h.arrays fun _ => .inl⟩

namespace AllArrays

variable {p : IndexedArray → Prop} (h : shell.AllArrays p)

include h

theorem put {b : Binding} (place : Store.Place) (hb : b.value.Arrays p) :
    AllArrays p { shell with store := shell.store.put place b } :=
  ⟨(Store.depth_bind ..).trans h.depth, h.arrays.put hb⟩

theorem get (place : Store.Place) : (shell.store.get place).value.Arrays p := by
  unfold Store.get
  cases hat : shell.store.at? place with
  | none => exact fun _ heq => nomatch heq
  | some b =>
      have hvalue := h.arrays.at? hat
      exact hvalue

theorem putValue {value : Value} (place : Store.Place) (hvalue : value.Arrays p) :
    AllArrays p { shell with store := shell.store.putValue place value } :=
  h.put place hvalue

theorem prepare {store : Store} (hprepare : shell.store.prepare name scope = .ok (place, store)) :
    AllArrays p { shell with store := store } := by
  obtain ⟨-, ⟨b, -, -, rfl⟩ | ⟨-, -, rfl⟩⟩ := Store.prepare_spec hprepare
  · exact h
  · exact h.put place fun _ heq => nomatch heq

end AllArrays

/-- A text that is assigned to an array goes to index zero. -/
theorem Counted.assign (h : shell.Counted) {store : Store} {append : Bool}
    (hassign : shell.store.assign name text scope append = .ok (place, store)) :
    Counted { shell with store := store } := by
  obtain ⟨prepared, b, value, hprepare, hat, -, hvalue, rfl⟩ := Store.assign_spec hassign
  have hprepared := h.prepare hprepare
  refine hprepared.put place ?_
  have hold := hprepared.arrays.at? hat
  show value.Arrays IndexedArray.Counted
  unfold Store.assigned at hvalue
  cases hb : b.value with
  | indexed elements =>
      rw [hb] at hvalue
      cases hvalue
      rintro _ ⟨⟩
      exact (hold elements hb).insert (.inl (Nat.two_pow_pos 63)) _
  | reference target =>
      rw [hb] at hvalue
      dsimp only at hvalue
      split_ifs at hvalue
      cases hvalue
      exact fun _ heq => nomatch heq
  | _ =>
      rw [hb] at hvalue
      cases hvalue
      exact fun _ heq => nomatch heq

end Shell

theorem IndexedArray.counted_sliceable {value : Value} (h : value.Arrays Counted) :
    (Eval.sliceable value).Counted := by
  cases value with
  | indexed elements => exact h elements rfl
  | scalar text => exact .inl (inRange_singleton text)
  | _ => exact .inl inRange_empty

theorem Value.Arrays.insertIndex {value : Value} (h : value.Arrays IndexedArray.Counted) {n : Nat}
    (hn : n < 2 ^ 63) (text : String) : (value.insertIndex n text).Arrays IndexedArray.Counted := by
  cases value with
  | indexed elements =>
      rintro _ ⟨⟩
      exact (h elements rfl).insert (.inl hn) text
  | _ => exact h

theorem Value.Arrays.insertKey {p : IndexedArray → Prop} {value : Value} (h : value.Arrays p)
    (key text : String) : (value.insertKey key text).Arrays p := by
  cases value with
  | associative elements => exact fun _ heq => nomatch heq
  | _ => exact h

namespace Eval

/-- The evaluation keeps all arrays counted, also when it fails. -/
abbrev KeepsCounted {α : Type} (action : Eval α) : Prop := Respects (Keeping Shell.Counted) action

theorem KeepsCounted.prepare (name : String) (scope : Scope) :
    KeepsCounted (change (·.prepare name scope)) :=
  .change fun _ _ _ hprepare h => h.prepare hprepare

theorem KeepsCounted.assign (name text : String) (scope : Scope) (append : Bool) :
    KeepsCounted (change (·.assign name text scope append)) :=
  .change fun _ _ _ hassign h => h.assign hassign

theorem KeepsCounted.oneDeeper {α : Type} {action : Eval α} (h : KeepsCounted action) :
    KeepsCounted (oneDeeper action) := by
  intro shell hshell
  have hdeeper := h { shell with arithDepth := shell.arithDepth + 1 } ⟨hshell.depth, hshell.arrays⟩
  exact ⟨hdeeper.depth, hdeeper.arrays⟩

theorem isAssociative_eq_ok {found : Bool} (h : isAssociative name shell = (.ok found, shell')) :
    shell' = shell ∧ (found = true → ∃ final b elements,
      shell.store.resolve name = .ok (final, some b) ∧ b.value = .associative elements) := by
  unfold isAssociative valueNamed at h
  rw [bind_run, bind_run, query_run] at h
  unfold Store.binding? at h
  cases hresolve : shell.store.resolve name with
  | error e =>
      rw [hresolve] at h
      cases h
  | ok result =>
      obtain ⟨final, found'⟩ := result
      rw [hresolve] at h
      cases found' with
      | none =>
          cases h
          exact ⟨rfl, nofun⟩
      | some b =>
          dsimp [Except.map] at h
          cases hvalue : b.value with
          | associative elements =>
              rw [hvalue] at h
              cases h
              exact ⟨rfl, fun _ => ⟨final, b, elements, rfl, hvalue⟩⟩
          | _ =>
              rw [hvalue] at h
              cases h
              exact ⟨rfl, nofun⟩

end Eval

/-! ### Keys -/

/-- A write under the key is to an associative array, or to an index of the range. -/
def Key.Lands (key : Key) (name : String) (scope : Scope) (shell : Shell) : Prop :=
  ∀ place store, shell.store.prepare name scope = .ok (place, store) →
    (∃ elements, (store.get place).value = .associative elements) ∨
      ∀ n : Nat, key.toIndex = .ok n → n < 2 ^ 63

namespace Key

/-- Outside of calls, a name leads to its only array in every scope. -/
theorem lands_of_resolve {final : String} {b : Binding} {elements : Table String}
    (hdepth : shell.store.depth = 0) (hresolve : shell.store.resolve name = .ok (final, some b))
    (hvalue : b.value = .associative elements) (key : Key) (scope : Scope) :
    key.Lands name scope shell := by
  intro place store hprepare
  left
  obtain ⟨hplace, hprepared⟩ := Store.prepare_spec hprepare
  obtain ⟨⟨final', found⟩, hresolve', rfl⟩ := exists_of_map_eq_ok hplace
  rw [hresolve] at hresolve'
  cases hresolve'
  have hat (scope : Scope) : shell.store.at? ⟨scope, final⟩ = some b := by
    rw [Store.at?_of_depth hdepth]
    exact (Store.resolve_spec hresolve).2.symm
  dsimp only at hprepared ⊢
  rcases hprepared with ⟨b', -, -, rfl⟩ | ⟨hnone, -, -⟩
  · rw [Store.get_of_at? (hat _)]
    exact ⟨elements, hvalue⟩
  · rw [hat] at hnone
    cases hnone

theorem lands_index {n : Int} (hn : Fits n) (name : String) (scope : Scope) (shell : Shell) :
    (index n).Lands name scope shell := by
  intro place store _
  right
  rintro m heq
  cases heq
  exact Int.ofNat_lt.mp hn.2

end Key

namespace Evaluators

open Eval

variable {deeper : Evaluators}

section keys

variable (hwrites : deeper.OnlyWrite) (hrange : deeper.InRange) {key : Key}

include hrange

theorem index_fits (name subscript : String) : Yields Fits (deeper.index name subscript) :=
  .ite (.refuse _) (hrange.evaluate subscript)

include hwrites

/-- **What a subscript is evaluated to lands where it may**: the evaluation does not turn the array
into another one. -/
theorem elementKey_lands {subscript : String} (hdepth : shell'.store.depth = 0)
    (h : deeper.elementKey name subscript shell = (.ok key, shell')) (scope : Scope) :
    key.Lands name scope shell' := by
  unfold Evaluators.elementKey at h
  obtain ⟨found, between, hfound, h⟩ := bind_eq_ok h
  obtain ⟨rfl, hassociative⟩ := isAssociative_eq_ok hfound
  cases found with
  | false =>
      obtain ⟨n, between, hn, h⟩ := bind_eq_ok h
      cases h
      exact Key.lands_index (index_fits hrange name subscript hn) name scope _
  | true =>
      obtain ⟨text, between', htext, h⟩ := bind_eq_ok h
      cases h
      obtain ⟨final, b, elements, hresolve, hvalue⟩ := hassociative rfl
      have hwritten := (hwrites.word .text subscript).of_run htext
      obtain ⟨b', hresolve', hrewritten⟩ := hwritten.store.resolve hresolve (by rw [hvalue]; rfl)
      have hbecomes := hrewritten.value
      rw [hvalue] at hbecomes
      obtain ⟨elements', hvalue'⟩ := hbecomes.exists_of_associative
      exact Key.lands_of_resolve hdepth hresolve' hvalue' _ scope

omit hwrites in
/-- So does the key of a cell. -/
theorem cell_lands {source array : String} {t : Arith.Target} (hdepth : shell'.store.depth = 0)
    (h : deeper.cell source t shell = (.ok (.element array key), shell')) (scope : Scope) :
    key.Lands array scope shell' := by
  have htext {name : String} {key : Key} {between : Shell}
      (hfound : isAssociative name shell = (.ok true, between)) (hdepth : between.store.depth = 0) :
      key.Lands name scope between := by
    obtain ⟨rfl, hassociative⟩ := isAssociative_eq_ok hfound
    obtain ⟨final, b, elements, hresolve, hvalue⟩ := hassociative rfl
    exact Key.lands_of_resolve hdepth hresolve hvalue key scope
  cases t with
  | «variable» name =>
      rw [Evaluators.cell] at h
      cases h
  | element name index subscript =>
      rw [Evaluators.cell] at h
      obtain ⟨found, between, hfound, h⟩ := bind_eq_ok h
      cases found with
      | true =>
          cases h
          exact htext hfound hdepth
      | false =>
          obtain ⟨n, between', hn, h⟩ := bind_eq_ok h
          cases h
          exact Key.lands_index (hrange.expr source index hn) _ scope _
  | keyed name subscript =>
      rw [Evaluators.cell] at h
      obtain ⟨found, between, hfound, h⟩ := bind_eq_ok h
      cases found with
      | true =>
          cases h
          exact htext hfound hdepth
      | false => cases h

end keys

/-! ### Literals -/

/-- **Items are inserted at indices that the array takes.** -/
theorem insertItems_counted (hrange : deeper.InRange) (name : String) (integer : Bool) :
    ∀ (items : List ArrayItem) {running : Nat} {elements : IndexedArray},
      elements.Counted → elements.Takes running →
        Yields IndexedArray.Counted (deeper.insertItems name integer items running elements)
  | [], _, _, hcounted, _ => .pure hcounted
  | item :: rest, running, elements, hcounted, hrunning => by
      have hrest (at' : Nat) (hat : elements.Takes at') : Yields IndexedArray.Counted (do
          let text ← deeper.stored integer item.value none
          deeper.insertItems name integer rest (at' + 1) (elements.insert at' text)) :=
        .behind fun text => insertItems_counted hrange name integer rest
          (hcounted.insert hat text) (elements.takes_succ_insert at' text)
      unfold Evaluators.insertItems
      cases item.key with
      | none => exact .bind (.pure hrunning) hrest
      | some subscript =>
          refine .bind (index_fits hrange name subscript) fun n hn => ?_
          cases n with
          | ofNat n => exact .bind (.pure (.inl (Int.ofNat_lt.mp hn.2))) hrest
          | negSucc n => exact .bind (.refuse _) hrest

/-! ### Writes -/

theorem putElement_counted (place : Store.Place) (begun : Binding) {update : Value → Value}
    (hupdate : ∀ {value : Value}, value.Arrays IndexedArray.Counted →
      (update value).Arrays IndexedArray.Counted) :
    KeepsCounted (putElement place begun update) := by
  intro shell h
  unfold putElement
  rw [store_bind_run]
  split
  · exact h.putValue place (hupdate (h.get place))
  · exact h

theorem putArray_counted (place : Store.Place) {value : Value}
    (hvalue : value.Arrays IndexedArray.Counted) : KeepsCounted (putArray place value) :=
  fun _ h => h.put place hvalue

section writes

variable (h : deeper.Respect (Keeping Shell.Counted))

include h

/-- **An element is written under a key that may be written.** -/
theorem setElement_counted {key : Key} (hkey : key.Lands name scope shell) (value : String)
    (append : Bool) :
    Keeping Shell.Counted shell (deeper.setElement name key value append scope shell).2 := by
  unfold Evaluators.setElement
  refine respects_bind_at (KeepsCounted.prepare name scope shell) fun place shell' hprepare => ?_
  obtain ⟨store, hstore, rfl⟩ := change_eq_ok hprepare
  have hplace := hkey place store hstore
  rw [store_bind_run]
  have hput {update : String → Value → Value} (hupdate : ∀ text {value : Value},
      value.Arrays IndexedArray.Counted → (update text value).Arrays IndexedArray.Counted)
      (begun : Binding) (integer : Bool) (old : Option String) :
      KeepsCounted (do
        let text ← deeper.stored integer value old
        putElement place begun (update text)
        return place) :=
    .bind (h.stored integer value old) fun text =>
      .bind (putElement_counted place begun (hupdate text)) fun _ => .pure place
  cases hvalue : (store.get place).value with
  | reference target => exact Respects.refuse _ _
  | associative elements =>
      exact Respects.bind (respects_textOf key)
        (fun selected => hput (fun text _ h => h.insertKey selected text) _ _ _) _
  | _ =>
      have hlands := hplace.resolve_left (by simp [hvalue])
      refine respects_bind_at (respects_indexOf key _) fun n between hn => ?_
      rw [indexOf_run] at hn
      obtain ⟨hkey, rfl⟩ := Prod.mk.inj hn
      cases n with
      | negSucc n => exact Respects.refuseShowing _ _ _
      | ofNat n =>
          dsimp only
          rw [store_bind_run]
          refine respects_bind_at (fun hcounted => ?_) fun _ _ _ =>
            hput (fun text _ h => h.insertIndex (hlands n hkey) text) _ _ _ _
          refine hcounted.putValue place ?_
          rintro _ ⟨⟩
          have hold := hcounted.get place
          rw [show Store.get _ place = store.get place from rfl, hvalue] at hold
          exact IndexedArray.counted_sliceable hold

theorem assignLiteral_counted (hrange : deeper.InRange) (name : String) (literal : ArrayLiteral)
    (scope : Scope) (append : Bool) :
    KeepsCounted (deeper.assignLiteral name literal scope append) := by
  intro shell
  unfold Evaluators.assignLiteral
  refine respects_bind_at (KeepsCounted.prepare name scope shell) fun place shell' hprepare => ?_
  obtain ⟨store, hstore, rfl⟩ := change_eq_ok hprepare
  rw [store_bind_run]
  have hput {value : Value} (hvalue : value.Arrays IndexedArray.Counted) :
      KeepsCounted (do putArray place value; return place) :=
    .bind (putArray_counted place hvalue) fun _ => .pure place
  have hstart {value : Value} (hvalue : value.Arrays IndexedArray.Counted) :
      (if append = true then sliceable value else .empty).Counted := by
    split
    · exact IndexedArray.counted_sliceable hvalue
    · exact .inl IndexedArray.inRange_empty
  intro hcounted
  cases hvalue : (store.get place).value with
  | reference target => exact hcounted
  | associative old =>
      have hpairs : KeepsCounted (do
          let pairs ← query fun _ => associativePairs place.name literal
          let elements ← deeper.insertPairs (store.get place).attributes.integer pairs
            (if append then old else Table.empty)
          putArray place (.associative elements)
          return place) :=
        .bind .query fun pairs => .bind (h.insertPairs _ pairs _) fun elements =>
          hput fun _ heq => nomatch heq
      exact hpairs _ hcounted
  | _ =>
      have hold := hcounted.get place
      rw [show Store.get _ place = store.get place from rfl, hvalue] at hold
      refine respects_bind_at (h.insertItems _ _ _ _ _ _) (fun elements between hitems => ?_)
        hcounted
      have helements := insertItems_counted hrange _ _ _ (hstart hold)
        (IndexedArray.takes_bound _) hitems
      refine hput ?_ _
      rintro _ ⟨⟩
      exact helements

theorem assign_counted (hwrites : deeper.OnlyWrite) (hrange : deeper.InRange)
    (target value : String) (scope : Scope) (append : Bool) :
    KeepsCounted (deeper.assign target value scope append) := by
  unfold Evaluators.assign
  cases splitSubscript target with
  | mk name subscript =>
      cases subscript with
      | some subscript =>
          intro shell
          refine respects_bind_at (h.elementKey name subscript shell) fun key shell' hkey => ?_
          intro hcounted
          have hlands := elementKey_lands hwrites hrange hcounted.depth hkey scope
          exact setElement_counted h hlands value append hcounted
      | none =>
          refine .ite (assignLiteral_counted h hrange _ _ _ _)
            (.bind (KeepsCounted.prepare target scope) fun place => .bind .store fun s => ?_)
          refine .ite (KeepsCounted.assign target value scope false)
            (.ite ?_ (KeepsCounted.assign target value scope append))
          exact .bind (h.stored true value _) fun text =>
            KeepsCounted.assign target text scope false

end writes

/-- All evaluations on a level keep the arrays counted, if those on the next one do. -/
theorem respectAll_counted (h : deeper.Respect (Keeping Shell.Counted))
    (hwrites : deeper.OnlyWrite) (hrange : deeper.InRange) :
    deeper.RespectAll (Keeping Shell.Counted) where
  toRespect := h
  writeCell {source t c shell shell'} n hcell := by
    intro hcounted
    match c with
    | .variable name => exact Respects.discard (KeepsCounted.assign name _ _ _) shell' hcounted
    | .element array key =>
        have hlands := cell_lands hrange hcounted.depth hcell .nearest
        have hset := setElement_counted h hlands (toString n) false hcounted
        unfold Evaluators.writeCell
        rw [discard_run_snd]
        exact hset
  assign target value := assign_counted h hwrites hrange target value .nearest false

end Evaluators

/-- **Evaluations keep the arrays counted**, on every nesting level. -/
theorem evaluators_keepCounted :
    ∀ levels, (evaluators levels).Respect (Eval.Keeping Shell.Counted)
  | 0 => ⟨fun _ _ => .throw _, fun _ _ => .throw _, Eval.KeepsCounted.oneDeeper⟩
  | levels + 1 =>
      have hall := Evaluators.respectAll_counted (evaluators_keepCounted levels)
        (evaluators_onlyWrite levels) (evaluators_inRange levels)
      ⟨hall.expandWord, hall.expr, Eval.KeepsCounted.oneDeeper⟩

end ShellExpansion
