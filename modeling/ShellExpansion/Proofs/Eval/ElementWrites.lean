import ShellExpansion.Proofs.Eval.ReadBack
import ShellExpansion.Proofs.Eval.Refusal
import ShellExpansion.Proofs.Store.Elements
import ShellExpansion.Proofs.Store.Open

/-! # Elements behind a write

An array is seen as a function from what its keys select to its elements (`ReadsByIndex`,
`ReadsByText`).  A write to an element changes this function at one argument, and so does the
removal of an element; no other variable changes (`Shell.Rebound`).  A variable that is no array
counts as one with its value at index zero.  The keys of an associative array keep their places,
and a new one goes behind them (`Evaluators.elementWrites_update`).  Where elements are looked up by
text, an index that is too long to be written is refused
(`Evaluators.elementWrites_refused_beyond_numerals`). -/

namespace ShellExpansion

/-! ### Keys -/

/-- The decimal text of an index means the index, if it is not too long. -/
theorem Key.toIndex_toString {n : ℕ} (h : Text.isWritable n = true) :
    (Key.text (toString n)).toIndex = .ok n := by
  rw [toIndex, Text.readNumeral_toString, if_pos h]

theorem Key.toIndex_toString_eq_error {n : ℕ} (h : Text.isWritable n = false) :
    (Key.text (toString n)).toIndex = .error .notANumber := by
  rw [toIndex, Text.readNumeral_toString, h, if_neg Bool.false_ne_true]

theorem Key.toText_index (n : ℤ) :
    (Key.index n).toText =
      if Text.isWritable n then .ok (toString n) else .error .numberTooLong := by
  rw [toText, checkWritable, List.all_cons, List.all_nil, Bool.and_true]
  split <;> rfl

theorem Key.toText_of_writable {n : ℤ} (h : Text.isWritable n = true) :
    (Key.index n).toText = .ok (toString n) := by
  rw [toText_index, if_pos h]

theorem Key.toText_of_unwritable {n : ℤ} (h : Text.isWritable n = false) :
    (Key.index n).toText = .error .numberTooLong := by
  rw [toText_index, if_neg (Bool.eq_false_iff.mp h)]

/-- The index may be looked up in the value: a scalar is asked by the text of the index. -/
def Value.AllowsIndex (value : Value) (index : ℤ) : Prop :=
  ∀ text, value = .scalar text → Text.isWritable index = true

/-! ### Variables that take elements -/

/-- The name leads to a variable that may be written, that is no reference, and that takes texts as
they are; or it leads to an identifier that is not bound, which stands for a variable without a
value. -/
structure Store.TakesElements (s : Store) (name final : String) (b : Binding) : Prop where
  leads : ∃ found, s.resolve name = .ok (final, found) ∧ found.getD .unset = b ∧
    (found = none → isIdentifier final = true)
  value : b.value.isReference = false
  writable : b.attributes.readonly = false
  plain : b.attributes.integer = false

theorem Store.TakesElements.exists_prepare {s : Store} {name final : String} {b : Binding}
    (h : s.TakesElements name final b) :
    ∃ prepared, s.prepare name .nearest = .ok (⟨.nearest, final⟩, prepared) ∧
      prepared.get ⟨.nearest, final⟩ = b := by
  obtain ⟨found, hresolve, rfl, hname⟩ := h.leads
  have hwritable : s.Writable name := by
    refine ⟨final, found, hresolve, ?_, hname⟩
    rintro b ⟨⟩
    exact ⟨h.value, h.writable⟩
  obtain ⟨place, prepared, hprepare, -⟩ := hwritable.exists_prepare
  obtain ⟨rfl, hget, -⟩ := Store.prepare_of_resolve hresolve hprepare
  exact ⟨prepared, hprepare, hget⟩

/-- What is put at a place that is ready is the one binding that has changed since. -/
theorem Store.sets_put_of_prepare {s prepared : Store} {name : String} {scope : Scope}
    {place : Place} (h : s.prepare name scope = .ok (place, prepared)) (b : Binding) :
    Sets s (s.level place.scope place.name) place.name b (prepared.put place b) := by
  obtain ⟨-, ⟨old, -, -, rfl⟩ | ⟨-, -, rfl⟩⟩ := prepare_spec h
  · exact .bind ..
  · exact sets_put_put ..

/-- A place is bound to another value, and this is all that has changed. -/
structure Shell.Rebound (shell : Shell) (place : Store.Place) (b : Binding) (shell' : Shell) :
    Prop where
  store : Store.Sets shell.store (shell.store.level place.scope place.name) place.name b
    shell'.store
  rest : { shell with store := shell'.store } = shell'

theorem Shell.rebound_put (shell : Shell) (place : Store.Place) (b : Binding) :
    shell.Rebound place b { shell with store := shell.store.put place b } :=
  ⟨.bind .., rfl⟩

theorem Shell.rebound_of_prepare {shell : Shell} {prepared : Store} {name : String} {scope : Scope}
    {place : Store.Place} (h : shell.store.prepare name scope = .ok (place, prepared))
    (b : Binding) : shell.Rebound place b { shell with store := prepared.put place b } :=
  ⟨Store.sets_put_of_prepare h b, rfl⟩

/-- Of two writes to the nearest binding of a name the second one counts. -/
theorem Shell.Rebound.trans {shell between shell' : Shell} {final : String} {b b' : Binding}
    (h : shell.Rebound ⟨.nearest, final⟩ b between)
    (h' : between.Rebound ⟨.nearest, final⟩ b' shell') :
    shell.Rebound ⟨.nearest, final⟩ b' shell' := by
  have hlevel : between.store.level .nearest final = shell.store.level .nearest final :=
    h.store.level_nearest final
  have hsecond := h'.store
  dsimp only at hsecond
  rw [hlevel] at hsecond
  refine ⟨h.store.trans hsecond, ?_⟩
  rw [← h'.rest, ← h.rest]

namespace Eval

variable {shell : Shell} {name final : String} {b : Binding} {found : Option Binding} {key : Key}
  {value : Value}

/-! ### Elements that are read -/

/-- Keys that are numbers select the elements at these indices. -/
def ReadsByIndex (name : String) (elements : ℕ → Option String) (shell : Shell) : Prop :=
  ∀ key (n : ℕ), key.toIndex = .ok n → getElement? name key shell = (.ok (elements n), shell)

/-- Keys select the elements under their texts. -/
def ReadsByText (name : String) (elements : String → Option String) (shell : Shell) : Prop :=
  ∀ key text, key.toText = .ok text → getElement? name key shell = (.ok (elements text), shell)

/-- A key that is an index selects the element at it, counted from the end if it is negative. -/
theorem getElement?_index (hvalue : valueNamed name shell = (.ok value, shell))
    (hkind : value.kind? ≠ some .associative) {index : ℤ} (hindex : value.AllowsIndex index) :
    getElement? name (.index index) shell =
      (.ok ((sliceable value).getFromEnd? index), shell) := by
  rw [getElement?, bind_run_of_ok hvalue]
  cases value with
  | associative elements => exact absurd rfl hkind
  | indexed elements => rfl
  | scalar text =>
      have hzero : toString index = "0" ↔ index = 0 := Text.toString_int_inj (n := 0)
      have hlast : toString index = "-1" ↔ index = -1 := Text.toString_int_inj (n := -1)
      dsimp only [sliceable]
      rw [bind_run_of_ok (textOf_run_of_ok (Key.toText_of_writable (hindex text rfl)))]
      simp only [hzero, hlast, IndexedArray.getFromEnd?_singleton]
      rfl
  | _ =>
      dsimp only [sliceable]
      rw [IndexedArray.getFromEnd?_empty]
      rfl

/-- A text that is a number selects what the number selects, if the variable is no scalar. -/
theorem getElement?_toIndex (hvalue : valueNamed name shell = (.ok value, shell))
    (hkind : value.kind? ≠ some .associative) (hscalar : ∀ text, value ≠ .scalar text) {index : ℤ}
    (hindex : key.toIndex = .ok index) :
    getElement? name key shell = (.ok ((sliceable value).getFromEnd? index), shell) := by
  cases value with
  | associative elements => exact absurd rfl hkind
  | scalar text => exact absurd rfl (hscalar text)
  | indexed elements => exact getElement?_of_indexed hvalue rfl hindex
  | _ =>
      rw [getElement?, bind_run_of_ok hvalue]
      dsimp only [sliceable]
      rw [IndexedArray.getFromEnd?_empty]
      rfl

theorem readsByIndex_of_value (hvalue : valueNamed name shell = (.ok value, shell))
    (hkind : value.kind? ≠ some .associative) (hscalar : ∀ text, value ≠ .scalar text) :
    ReadsByIndex name (sliceable value).get? shell :=
  fun _ _ hindex => getElement?_toIndex hvalue hkind hscalar hindex

theorem readsByText_of_value {elements : Table String}
    (hvalue : valueNamed name shell = (.ok (.associative elements), shell)) :
    ReadsByText name elements.get? shell :=
  fun _ _ htext => getElement?_of_associative hvalue rfl htext

/-- A key that is too long to be written selects nothing where elements are looked up by text. -/
theorem getElement?_unwritable (hvalue : valueNamed name shell = (.ok value, shell)) {index : ℤ}
    (hkind : value.kind? = some .associative ∨ ∃ text, value = .scalar text)
    (hindex : Text.isWritable index = false) :
    getElement? name (.index index) shell = (.error .numberTooLong, shell) := by
  have htext : textOf (.index index) shell = (.error .numberTooLong, shell) := by
    rw [textOf_run, Key.toText_of_unwritable hindex]
  rw [getElement?, bind_run_of_ok hvalue]
  cases value with
  | associative elements => exact bind_run_of_error htext
  | scalar text => exact bind_run_of_error htext
  | _ => simp [Value.kind?] at hkind

end Eval

/-! ### What stays behind a write -/

namespace Store.TakesElements

open Eval

variable {name final : String} {b b' : Binding} {shell shell' : Shell}

theorem valueNamed_run (h : shell.store.TakesElements name final b) :
    valueNamed name shell = (.ok b.value, shell) := by
  obtain ⟨found, hresolve, rfl, -⟩ := h.leads
  exact valueNamed_of_resolve hresolve

/-- The name leads to what its variable is bound to next. -/
theorem valueNamed_after (h : shell.store.TakesElements name final b)
    (hafter : shell.Rebound ⟨.nearest, final⟩ b' shell') (hvalue : b'.value.isReference = false) :
    valueNamed name shell' = (.ok b'.value, shell') := by
  obtain ⟨found, hresolve, -, -⟩ := h.leads
  exact valueNamed_of_resolve (hafter.store.resolve_eq hvalue hresolve)

/-- A variable that takes elements still does so behind a write. -/
theorem after {value : Value} (h : shell.store.TakesElements name final b)
    (hafter : shell.Rebound ⟨.nearest, final⟩ (b.withValue value) shell')
    (hvalue : value.isReference = false) :
    shell'.store.TakesElements name final (b.withValue value) := by
  obtain ⟨found, hresolve, -, -⟩ := h.leads
  exact ⟨⟨_, hafter.store.resolve_eq hvalue hresolve, rfl, nofun⟩, hvalue, h.writable, h.plain⟩

/-- Elements behind a write are those of the array that was written. -/
theorem readsByIndex_after {elements : IndexedArray} (h : shell.store.TakesElements name final b)
    (hafter : shell.Rebound ⟨.nearest, final⟩ (b.withValue (.indexed elements)) shell') :
    ReadsByIndex name elements.get? shell' :=
  @readsByIndex_of_value _ _ (.indexed elements) (h.valueNamed_after hafter rfl) nofun nofun

theorem readsByText_after {elements : Table String} (h : shell.store.TakesElements name final b)
    (hafter : shell.Rebound ⟨.nearest, final⟩ (b.withValue (.associative elements)) shell') :
    ReadsByText name elements.get? shell' :=
  readsByText_of_value (h.valueNamed_after hafter rfl)

theorem allKeys_after {elements : Table String} (h : shell.store.TakesElements name final b)
    (hafter : shell.Rebound ⟨.nearest, final⟩ (b.withValue (.associative elements)) shell') :
    allKeys name shell' = (.ok elements.keys, shell') :=
  allKeys_of_associative (h.valueNamed_after hafter rfl) rfl

/-- An array is the value of a variable that is bound. -/
theorem resolve_of_kind? {kind : Attribute} (h : shell.store.TakesElements name final b)
    (hkind : b.value.kind? = some kind) : shell.store.resolve name = .ok (final, some b) := by
  obtain ⟨found, hresolve, rfl, -⟩ := h.leads
  cases found with
  | none => cases hkind
  | some b => exact hresolve

end Store.TakesElements

theorem Store.putValue_putValue (s : Store) (place : Place) (value value' : Value) :
    (s.putValue place value).putValue place value' = s.putValue place value' := by
  rw [putValue, get_putValue]
  exact put_put ..

namespace Evaluators

open Eval

variable {deeper : Evaluators} {name : String} {key : Key} {scope : Scope} {place : Store.Place}
  {b : Binding} {prepared : Store} {shell : Shell}

/-! ### Writes as runs -/

section runs

variable (hprepare : shell.store.prepare name scope = .ok (place, prepared))
  (hget : prepared.get place = b) (hinteger : b.attributes.integer = false)

include hprepare hget hinteger

/-- An element is put into the array that the variable is, or that it counts as. -/
theorem setElement_index_run (hreference : b.value.isReference = false)
    (hkind : b.value.kind? ≠ some .associative) {n : ℕ} (hindex : key.toIndex = .ok n)
    (value : String) (append : Bool) :
    let elements := sliceable b.value
    let old := if append then elements.get? n else none
    deeper.setElement name key value append scope shell = (.ok place, { shell with
      store := prepared.put place
        (b.withValue (.indexed (elements.insert n (old.getD "" ++ value)))) }) := by
  have hrun (elements : IndexedArray) (old : Option String) : (do
      setStore ((← store).putValue place (.indexed elements))
      let text ← deeper.stored b.attributes.integer value old
      putElement place b (·.insertIndex n text)
      return place : Eval Store.Place) { shell with store := prepared } =
      (.ok place, { shell with
        store := prepared.put place
          (b.withValue (.indexed (elements.insert n (old.getD "" ++ value)))) }) := by
    rw [hinteger, stored_plain, pure_bind]
    show (putElement place b (·.insertIndex n (old.getD "" ++ value)) >>= fun _ => pure place :
      Eval Store.Place) { shell with store := prepared.putValue place (.indexed elements) } = _
    rw [bind_run_of_ok (@putElement_opened { shell with store := prepared } _ _ hget _ _ _),
      Store.putValue_putValue, Store.putValue, hget]
    rfl
  unfold setElement
  rw [bind_run_of_ok (change_run_of_ok hprepare), store_bind_run, hget]
  cases hvalue : b.value with
  | reference target =>
      rw [hvalue] at hreference
      cases hreference
  | associative elements =>
      rw [hvalue] at hkind
      exact absurd rfl hkind
  | _ =>
      dsimp only
      rw [bind_run_of_ok (indexOf_run_of_ok hindex)]
      exact hrun _ _

theorem setElement_text_run {elements : Table String} (hvalue : b.value = .associative elements)
    {text : String} (htext : key.toText = .ok text) (value : String) (append : Bool) :
    let old := if append then elements.get? text else none
    deeper.setElement name key value append scope shell = (.ok place, { shell with
      store := prepared.put place
        (b.withValue (.associative (elements.insert text (old.getD "" ++ value)))) }) := by
  intro old
  unfold setElement
  rw [bind_run_of_ok (change_run_of_ok hprepare), store_bind_run, hget, hvalue]
  dsimp only
  rw [bind_run_of_ok (textOf_run_of_ok htext), hinteger, stored_plain, pure_bind,
    bind_run_of_ok (putElement_run (by rw [hget]) _), Store.putValue, hget, hvalue]
  rfl

end runs

section removals

variable {final : String} (h : shell.store.TakesElements name final b)

include h

theorem unsetElement_index_run {elements : IndexedArray} (hvalue : b.value = .indexed elements)
    {index : ℤ} {n : ℕ} (hindex : key.toIndex = .ok index) (hn : elements.fromEnd index = n) :
    unsetElement name key shell = (.ok (elements.get? n).isSome, { shell with
      store := shell.store.put ⟨.nearest, final⟩
        (b.withValue (.indexed (elements.erase n))) }) := by
  have hkind : b.value.kind? = some .indexed := by rw [hvalue]; rfl
  have hresolve := h.resolve_of_kind? hkind
  have hat : shell.store.at? ⟨.nearest, final⟩ = some b := (Store.resolve_spec hresolve).2.symm
  unfold unsetElement
  rw [bind_run_of_ok (query_run_of_ok hresolve)]
  dsimp only
  rw [h.writable, if_neg Bool.false_ne_true, hvalue]
  dsimp only
  rw [bind_run_of_ok (indexOf_run_of_ok hindex), hn]
  show (Except.ok (elements.get? n).isSome, { shell with
    store := shell.store.putValue ⟨.nearest, final⟩ (.indexed (elements.erase n)) }) = _
  rw [Store.putValue, Store.get_of_at? hat]

theorem unsetElement_text_run {elements : Table String} (hvalue : b.value = .associative elements)
    {text : String} (htext : key.toText = .ok text) :
    unsetElement name key shell = (.ok (elements.get? text).isSome, { shell with
      store := shell.store.put ⟨.nearest, final⟩
        (b.withValue (.associative (elements.erase text))) }) := by
  have hkind : b.value.kind? = some .associative := by rw [hvalue]; rfl
  have hresolve := h.resolve_of_kind? hkind
  have hat : shell.store.at? ⟨.nearest, final⟩ = some b := (Store.resolve_spec hresolve).2.symm
  unfold unsetElement
  rw [bind_run_of_ok (query_run_of_ok hresolve)]
  dsimp only
  rw [h.writable, if_neg Bool.false_ne_true, hvalue]
  dsimp only
  rw [bind_run_of_ok (textOf_run_of_ok htext)]
  show (Except.ok (elements.get? text).isSome, { shell with
    store := shell.store.putValue ⟨.nearest, final⟩
      (.associative (elements.erase text)) }) = _
  rw [Store.putValue, Store.get_of_at? hat]

end removals

section refusals

variable {final : String} {elements : Table String} {fault : Fault}
  (h : shell.store.TakesElements name final b) (hvalue : b.value = .associative elements)
  (htext : key.toText = .error fault)

include h hvalue htext

theorem setElement_text_refused (deeper : Evaluators) (value : String) (append : Bool) :
    deeper.setElement name key value append .nearest shell = (.error fault, shell) := by
  have hkind : b.value.kind? = some .associative := by rw [hvalue]; rfl
  have hresolve := h.resolve_of_kind? hkind
  have hat : shell.store.at? ⟨.nearest, final⟩ = some b := (Store.resolve_spec hresolve).2.symm
  unfold setElement
  rw [bind_run_of_ok (change_run_of_ok (Store.prepare_eq_of_resolve hresolve h.writable)),
    store_bind_run, Store.get_of_at? hat, hvalue]
  exact bind_run_of_error (by rw [textOf_run, htext])

theorem unsetElement_text_refused : unsetElement name key shell = (.error fault, shell) := by
  have hkind : b.value.kind? = some .associative := by rw [hvalue]; rfl
  have hresolve := h.resolve_of_kind? hkind
  unfold unsetElement
  rw [bind_run_of_ok (query_run_of_ok hresolve)]
  dsimp only
  rw [h.writable, if_neg Bool.false_ne_true, hvalue]
  exact bind_run_of_error (by rw [textOf_run, htext])

end refusals

/-! ### The laws of writes -/

section laws

variable {α : Type} {final : String}

/-- The action gives the answer and changes one variable only, and the name reads by index as these
elements behind it. -/
def LeavesByIndex (action : Eval α) (answer : α) (name final : String) (b : Binding)
    (elements : ℕ → Option String) (shell : Shell) : Prop :=
  ∃ array shell', action shell = (.ok answer, shell') ∧ ReadsByIndex name elements shell' ∧
    shell.Rebound ⟨.nearest, final⟩ (b.withValue (.indexed array)) shell'

/-- The action gives the answer and changes one variable only, and the name reads by text as these
elements behind it, with the keys in this order. -/
def LeavesByText (action : Eval α) (answer : α) (name final : String) (b : Binding)
    (elements : String → Option String) (keys : List String) (shell : Shell) : Prop :=
  ∃ array shell', action shell = (.ok answer, shell') ∧ ReadsByText name elements shell' ∧
    allKeys name shell' = (.ok keys, shell') ∧
    shell.Rebound ⟨.nearest, final⟩ (b.withValue (.associative array)) shell'

/-- A variable that is no associative array is a map from indices: a former scalar holds its value
at index zero.  Keys that are numbers mean indices, but a scalar is read by decimal texts only. -/
structure WritesByIndex (deeper : Evaluators) (name final : String) (b : Binding) (shell : Shell) :
    Prop where
  /-- What is there before a write. -/
  index (n : ℕ) (hn : b.value.AllowsIndex n) :
    getElement? name (.index n) shell = (.ok ((sliceable b.value).get? n), shell)
  reads : (∀ text, b.value ≠ .scalar text) → ReadsByIndex name (sliceable b.value).get? shell
  /-- An element that is written is the value, behind the old element if it is appended to it. -/
  set (key : Key) (n : ℕ) (value : String) (append : Bool) (hindex : key.toIndex = .ok n) :
    let old := (sliceable b.value).get?
    LeavesByIndex (deeper.setElement name key value append .nearest) ⟨.nearest, final⟩ name final b
      (Function.update old n (some ((if append then old n else none).getD "" ++ value))) shell
  /-- An element that is removed is gone; a negative index counts from the end. -/
  unset {old : IndexedArray} (hvalue : b.value = .indexed old) (key : Key) (index : ℤ) (n : ℕ)
      (hindex : key.toIndex = .ok index) (hn : old.fromEnd index = n) :
    LeavesByIndex (unsetElement name key) (old.get? n).isSome name final b
      (Function.update old.get? n none) shell

/-- An associative array is a map from texts, with an order of its keys.  A key is a text or an
index that is not too long to be written. -/
structure WritesByText (deeper : Evaluators) (name final : String) (b : Binding)
    (old : Table String) (shell : Shell) : Prop where
  /-- What is there before a write. -/
  reads : ReadsByText name old.get? shell
  keys : allKeys name shell = (.ok old.keys, shell)
  /-- A key that is written keeps its place, and a new one comes last. -/
  set (key : Key) {text : String} (htext : key.toText = .ok text) (value : String) (append : Bool) :
    LeavesByText (deeper.setElement name key value append .nearest) ⟨.nearest, final⟩ name final b
      (Function.update old.get? text
        (some ((if append then old.get? text else none).getD "" ++ value)))
      (if text ∈ old.keys then old.keys else old.keys ++ [text]) shell
  /-- The other keys keep their order when a key is removed. -/
  unset (key : Key) {text : String} (htext : key.toText = .ok text) :
    LeavesByText (unsetElement name key) (old.get? text).isSome name final b
      (Function.update old.get? text none) (old.keys.filter (· ≠ text)) shell
  /-- A key that is removed and written again comes last. -/
  reset (key : Key) {text : String} (htext : key.toText = .ok text) (value : String)
      (append : Bool) :
    LeavesByText (do
        discard (unsetElement name key)
        deeper.setElement name key value append .nearest) ⟨.nearest, final⟩ name final b
      (Function.update old.get? text (some value)) (old.keys.filter (· ≠ text) ++ [text]) shell
  /-- Any other key is refused, and nothing changes. -/
  refused (key : Key) {fault : Fault} (htext : key.toText = .error fault) (value : String)
      (append : Bool) :
    deeper.setElement name key value append .nearest shell = (.error fault, shell) ∧
      unsetElement name key shell = (.error fault, shell)

variable (h : shell.store.TakesElements name final b)

include h

theorem leavesByIndex_of_run {action : Eval α} {answer : α} {shell' : Shell} {array : IndexedArray}
    (hrun : action shell = (.ok answer, shell'))
    (hafter : shell.Rebound ⟨.nearest, final⟩ (b.withValue (.indexed array)) shell') :
    LeavesByIndex action answer name final b array.get? shell :=
  ⟨array, shell', hrun, h.readsByIndex_after hafter, hafter⟩

theorem leavesByText_of_run {action : Eval α} {answer : α} {shell' : Shell} {array : Table String}
    (hrun : action shell = (.ok answer, shell'))
    (hafter : shell.Rebound ⟨.nearest, final⟩ (b.withValue (.associative array)) shell') :
    LeavesByText action answer name final b array.get? array.keys shell :=
  ⟨array, shell', hrun, h.readsByText_after hafter, h.allKeys_after hafter, hafter⟩

theorem writesByIndex (deeper : Evaluators) (hkind : b.value.kind? ≠ some .associative) :
    deeper.WritesByIndex name final b shell where
  index n hn := getElement?_index h.valueNamed_run hkind hn
  reads hscalar := readsByIndex_of_value h.valueNamed_run hkind hscalar
  set key n value append hindex := by
    obtain ⟨prepared, hprepare, hget⟩ := h.exists_prepare
    have hrun := @setElement_index_run deeper _ _ _ _ _ _ _ hprepare hget h.plain h.value hkind _
      hindex value append
    have hleaves := leavesByIndex_of_run h hrun (shell.rebound_of_prepare hprepare _)
    rw [IndexedArray.get?_insert_eq_update] at hleaves
    exact hleaves
  unset {old} hvalue key index n hindex hn := by
    have hrun := unsetElement_index_run h hvalue hindex hn
    have hleaves := leavesByIndex_of_run h hrun (shell.rebound_put ..)
    rw [IndexedArray.get?_erase_eq_update] at hleaves
    exact hleaves

/-- An associative array with a key written. -/
theorem setElement_leavesByText (deeper : Evaluators) {old : Table String}
    (hvalue : b.value = .associative old) (key : Key) {text : String}
    (htext : key.toText = .ok text) (value : String) (append : Bool) :
    LeavesByText (deeper.setElement name key value append .nearest) ⟨.nearest, final⟩ name final b
      (Function.update old.get? text
        (some ((if append then old.get? text else none).getD "" ++ value)))
      (if text ∈ old.keys then old.keys else old.keys ++ [text]) shell := by
  obtain ⟨prepared, hprepare, hget⟩ := h.exists_prepare
  have hrun := @setElement_text_run deeper _ key _ _ _ _ _ hprepare hget h.plain _ hvalue _ htext
    value append
  have hleaves := leavesByText_of_run h hrun (shell.rebound_of_prepare hprepare _)
  rw [Table.get?_insert_eq_update, Table.keys_insert] at hleaves
  exact hleaves

theorem writesByText (deeper : Evaluators) {old : Table String}
    (hvalue : b.value = .associative old) : deeper.WritesByText name final b old shell where
  reads := readsByText_of_value (hvalue ▸ h.valueNamed_run)
  keys := allKeys_of_associative h.valueNamed_run hvalue
  set key _ htext := setElement_leavesByText h deeper hvalue key htext
  unset key text htext := by
    have hrun := unsetElement_text_run h hvalue htext
    have hleaves := leavesByText_of_run h hrun (shell.rebound_put ..)
    rw [Table.get?_erase_eq_update, Table.keys_erase] at hleaves
    exact hleaves
  reset key text htext value append := by
    have hrun := unsetElement_text_run h hvalue htext
    have hafter := shell.rebound_put ⟨.nearest, final⟩
      (b.withValue (.associative (old.erase text)))
    obtain ⟨elements, shell', hrun', hreads, hkeys, hafter'⟩ :=
      setElement_leavesByText (h.after hafter rfl) deeper rfl key htext value append
    have hgone : (old.erase text).get? text = none := by
      rw [Table.get?_erase, if_pos rfl]
    have hnot : text ∉ old.keys.filter (· ≠ text) := by simp
    rw [hgone, ite_self, Table.get?_erase_eq_update, Function.update_idem, Option.getD_none,
      String.empty_append] at hreads
    rw [Table.keys_erase, if_neg hnot] at hkeys
    refine ⟨elements, shell', ?_, hreads, hkeys, hafter.trans hafter'⟩
    rw [bind_run_of_ok (discard_run_of_ok hrun), hrun']
  refused _ _ htext value append :=
    ⟨setElement_text_refused h hvalue htext deeper value append,
      unsetElement_text_refused h hvalue htext⟩

/-- **Element writes are updates of a map.**  Let a name lead to a variable that may be written,
that is no reference and has no integer attribute, or to an identifier that is not bound.  Writing
an element, or appending to one, gives this element the new text and leaves all others as they
were; removing an element of an array takes it away, leaves all others at their keys, and says
whether it was there.  An associative array keeps the order of its keys, and a key that is new, or
that was removed before, comes last; it refuses an index that is too long to be written.  No other
variable changes, nor do the attributes. -/
theorem elementWrites_update (deeper : Evaluators) :
    (b.value.kind? ≠ some .associative → deeper.WritesByIndex name final b shell) ∧
      ∀ old, b.value = .associative old → deeper.WritesByText name final b old shell :=
  ⟨writesByIndex h deeper, fun _ hvalue => writesByText h deeper hvalue⟩

end laws

/-- In a call, a text is appended behind a scalar, and a key of an outer array is removed and
written again through a local reference. -/
theorem elementWrites_update_inCall :
    let array : Binding := ⟨.associative ((Table.empty.insert "k" "1").insert "j" "2"), .none, 0⟩
    let shell : Shell := ⟨⟨[⟨"f", [], (Table.empty.insert "r" ⟨.reference "a", .none, 0⟩).insert
        "s" ⟨.scalar "x", .none, 0⟩⟩],
      ⟨"global", [], Table.empty.insert "a" array⟩, .standard⟩, false, "script", 0⟩
    (∃ shell', (evaluators 1).setElement "s" (.text "10") "y" true .nearest shell =
        (.ok ⟨.nearest, "s"⟩, shell') ∧
      getElement? "s" (.index 0) shell' = (.ok (some "x"), shell') ∧
      getElement? "s" (.index 10) shell' = (.ok (some "y"), shell')) ∧
    ∃ shell', (do
        discard (unsetElement "r" (.text "k"))
        (evaluators 1).setElement "r" (.text "k") "3" false .nearest) shell =
        (.ok ⟨.nearest, "a"⟩, shell') ∧
      allKeys "r" shell' = (.ok ["j", "k"], shell') ∧
      shell'.store.slot? 1 "s" = shell.store.slot? 1 "s" := by
  intro array shell
  have hscalar : shell.store.TakesElements "s" "s" ⟨.scalar "x", .none, 0⟩ :=
    ⟨⟨some _, by decide, rfl, nofun⟩, rfl, rfl, rfl⟩
  have harray : shell.store.TakesElements "r" "a" array :=
    ⟨⟨some _, by decide, rfl, nofun⟩, rfl, rfl, rfl⟩
  have hindex : (Key.text "10").toIndex = .ok (10 : ℕ) := @Key.toIndex_toString 10 (by decide)
  obtain ⟨_, shell', hset, hreads, -⟩ := ((elementWrites_update hscalar (evaluators 1)).1
    nofun).set (.text "10") 10 "y" true hindex
  obtain ⟨_, shell'', hreset, -, hkeys, hafter⟩ := ((elementWrites_update harray (evaluators 1)).2
    _ rfl).reset (.text "k") rfl "3" false
  exact ⟨⟨shell', hset, hreads (.index 0) 0 rfl, hreads (.index 10) 10 rfl⟩, shell'', hreset, hkeys,
    hafter.store.slot? 1 "s"⟩

/-- **An index that is too long to be written is no key** of an associative array, and a scalar
cannot be asked for its element there: what is written is refused, and so is the reading. -/
theorem elementWrites_refused_beyond_numerals :
    let shell : Shell := ⟨⟨[], ⟨"global", [], (Table.empty.insert "m"
        ⟨.associative .empty, .none, 0⟩).insert "s" ⟨.scalar "x", .none, 0⟩⟩, .standard⟩,
      false, "script", 0⟩
    let key : Key := .index (10 ^ Text.maxDecimalDigits : ℕ)
    (evaluators 1).setElement "m" key "v" false .nearest shell = (.error .numberTooLong, shell) ∧
      unsetElement "m" key shell = (.error .numberTooLong, shell) ∧
      getElement? "s" key shell = (.error .numberTooLong, shell) := by
  intro shell key
  have hlong : Text.isWritable (10 ^ Text.maxDecimalDigits : ℕ) = false := by
    rw [Bool.eq_false_iff, ne_eq, Text.isWritable_iff]
    exact Nat.lt_irrefl _
  have harray : shell.store.TakesElements "m" "m" ⟨.associative .empty, .none, 0⟩ :=
    ⟨⟨some _, by decide, rfl, nofun⟩, rfl, rfl, rfl⟩
  have hscalar : shell.store.TakesElements "s" "s" ⟨.scalar "x", .none, 0⟩ :=
    ⟨⟨some _, by decide, rfl, nofun⟩, rfl, rfl, rfl⟩
  have hrefused := (writesByText harray (evaluators 1) rfl).refused key
    (Key.toText_of_unwritable hlong) "v" false
  exact ⟨hrefused.1, hrefused.2,
    getElement?_unwritable hscalar.valueNamed_run (.inr ⟨"x", rfl⟩) hlong⟩

end Evaluators

end ShellExpansion
