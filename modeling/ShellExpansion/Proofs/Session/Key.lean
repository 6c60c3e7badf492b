import ShellExpansion.Proofs.Parameter.Key
import ShellExpansion.Proofs.Session.Listing
import ShellExpansion.Proofs.Session.Quote

/-! # Any text is a key

An element of an associative array that is written under a quoted key is read back under it,
whatever characters the key has (`Action.key_reads_back`).  The write inserts the key into the array
at the end of the chain of references and changes no other binding. -/

namespace ShellExpansion

open Lexical

namespace Evaluators

open Eval

variable {deeper : Evaluators} {name final subscript key text value : String} {b : Binding}
  {elements : Table String} {shell : Shell}

/-- A subscript is the key that it expands to. -/
theorem elementKey_of_word (hbinding : shell.store.binding? name = .ok (some b))
    (hvalue : b.value = .associative elements) (hword : deeper.word .text subscript = pure key) :
    deeper.elementKey name subscript shell = (.ok (.text key), shell) := by
  have hassociative := isAssociative_of_binding? hbinding hvalue
  rw [elementKey, bind_run_of_ok hassociative, if_pos rfl, hword]
  rfl

/-- **An element is written** into the associative array that a name leads to. -/
theorem setElement_associative_run (hresolve : shell.store.resolve name = .ok (final, some b))
    (hvalue : b.value = .associative elements) (hreadonly : b.attributes.readonly = false)
    (hstored : deeper.stored b.attributes.integer text none = pure value) (key : String) :
    ∃ store, deeper.setElement name (.text key) text false .nearest shell =
        (.ok ⟨.nearest, final⟩, { shell with store := store }) ∧
      Store.Sets shell.store (shell.store.level .nearest final) final
        (b.withValue (.associative (elements.insert key value))) store := by
  have hat : shell.store.at? ⟨.nearest, final⟩ = some b := (Store.resolve_spec hresolve).2.symm
  have hget := Store.get_of_at? hat
  have hput : putElement ⟨.nearest, final⟩ b (·.insertKey key value) shell =
      (.ok (), { shell with
        store := shell.store.put ⟨.nearest, final⟩
          (b.withValue (.associative (elements.insert key value))) }) := by
    rw [putElement_run (by rw [hget]), Store.putValue, hget, hvalue]
    rfl
  refine ⟨_, ?_, Store.Sets.bind shell.store .nearest final _⟩
  unfold setElement
  rw [bind_run_of_ok (change_run_of_ok (Store.prepare_eq_of_resolve hresolve hreadonly)),
    store_bind_run, hget, hvalue]
  dsimp only
  rw [bind_run_of_ok (textOf_run_of_ok (rfl : (Key.text key).toText = .ok key)),
    show (if false = true then elements.get? key else none) = none from rfl, hstored, pure_bind]
  exact bind_run_of_ok hput

theorem directReading_element (deeper : Evaluators) (hname : IsPlainName name) {subscript : String}
    (hall : subscript ≠ "@") (hstar : subscript ≠ "*") :
    deeper.directReading name (some subscript) =
      (do return .one (← getElement? name (← deeper.elementKey name subscript))) := by
  rw [directReading_identifier deeper hname.identifier]
  split
  · next heq => cases heq
  · next heq => exact absurd (Option.some.inj heq) hall
  · next heq => exact absurd (Option.some.inj heq) hstar
  · next heq =>
      obtain rfl := Option.some.inj heq
      rfl

/-- **An element is read** under the key of its subscript. -/
theorem expandParameter_found {key : Key} {found : Option String} (hname : IsPlainName name)
    (hall : subscript ≠ "@") (hstar : subscript ≠ "*")
    (hkey : deeper.elementKey name subscript shell = (.ok key, shell))
    (helement : getElement? name key shell = (.ok found, shell))
    (hset : shell.nounset = true → found.isSome = true)
    (hlength : ((found.getD "").length : Int) ≤ shell.store.limits.stringLength) :
    deeper.expandParameter ⟨name, some subscript, false, none⟩ shell =
      (.ok [found.getD ""], shell) := by
  have hdirect : deeper.directReading name (some subscript) shell = (.ok (.one found), shell) := by
    rw [directReading_element _ hname hall hstar, bind_run_of_ok hkey]
    exact bind_run_of_ok helement
  have hreading : deeper.reading ⟨name, some subscript, false, none⟩ shell =
      (.ok ⟨withSubscript name (some subscript), .one found⟩, shell) :=
    bind_run_of_ok hdirect
  exact expandParameter_of_reading rfl hreading hset hlength

/-- An element of the associative array that a name leads to. -/
theorem expandParameter_element (hname : IsPlainName name) (hall : subscript ≠ "@")
    (hstar : subscript ≠ "*") (hbinding : shell.store.binding? name = .ok (some b))
    (hvalue : b.value = .associative elements) (hword : deeper.word .text subscript = pure key)
    (hset : shell.nounset = true → (elements.get? key).isSome = true)
    (hlength : (((elements.get? key).getD "").length : Int) ≤ shell.store.limits.stringLength) :
    deeper.expandParameter ⟨name, some subscript, false, none⟩ shell =
      (.ok [(elements.get? key).getD ""], shell) :=
  expandParameter_found hname hall hstar (elementKey_of_word hbinding hvalue hword)
    (getElement?_associative hbinding hvalue (rfl : (Key.text key).toText = .ok key)) hset hlength

/-- A subscript in quotes is the key that it quotes. -/
theorem word_singleQuote (levels : Nat) (key : String) :
    (evaluators (levels + 1)).word .text (singleQuote key) = pure key :=
  (evaluators levels).expandWord_quote .single key

/-- A key in quotes is no subscript of all elements. -/
theorem singleQuote_ne_singleton {c : Char} (hc : c ≠ '\'') (key : String) :
    singleQuote key ≠ String.singleton c := by
  intro heq
  rw [← String.toList_inj, singleQuote, String.toList_ofList, String.toList_singleton] at heq
  exact hc (List.cons.inj heq).1.symm

end Evaluators

namespace Action

open Eval

section element

variable (hname : IsPlainName name)

include hname

/-- An element under a quoted key is assigned to. -/
theorem run_assign_elementName (hresolve : shell.store.resolve name = .ok (final, some b))
    (hvalue : b.value = .associative elements) (hreadonly : b.attributes.readonly = false)
    (hinteger : b.attributes.integer = false) (key value : String) :
    ∃ reply store,
      (Action.assign (elementName name key) value .nearest false).run shell =
        (.ok reply, { shell with store := store }) ∧
      Store.Sets shell.store (shell.store.level .nearest final) final
        (b.withValue (.associative (elements.insert key value))) store := by
  obtain ⟨levels, hlevels⟩ := Evaluators.exists_nesting_eq shell.store.limits
  have hbinding := Store.binding?_of_resolve hresolve
  have hword := Evaluators.word_singleQuote levels key
  have hkey := Evaluators.elementKey_of_word hbinding hvalue hword
  have hstored : (evaluators (levels + 1)).stored b.attributes.integer value none = pure value := by
    rw [hinteger, Evaluators.stored_text]
  obtain ⟨store, hset, hsets⟩ :=
    Evaluators.setElement_associative_run hresolve hvalue hreadonly hstored key
  have hassign : (evaluators shell.store.limits.nesting).assign (elementName name key) value
      .nearest false shell = (.ok ⟨.nearest, final⟩, { shell with store := store }) := by
    rw [hlevels, Evaluators.assign, elementName_eq, splitSubscript_withSubscript hname]
    dsimp only
    rw [bind_run_of_ok hkey, hset]
  exact ⟨_, store, run_assign_nearest hassign, hsets⟩

/-- An element under a quoted key is expanded. -/
theorem run_expand_elementText (shell : Shell)
    (hbinding : shell.store.binding? name = .ok (some b))
    (hvalue : b.value = .associative elements) (hget : elements.get? key = some value)
    (hlength : (value.length : Int) ≤ shell.store.limits.stringLength) :
    (Action.expand (elementText name key)).run shell =
      (.ok (.texts [value]), shell) := by
  obtain ⟨levels, hlevels⟩ := Evaluators.exists_nesting_eq shell.store.limits
  have hword := Evaluators.word_singleQuote levels key
  have hall := Evaluators.singleQuote_ne_singleton (c := '@') (by decide) key
  have hstar := Evaluators.singleQuote_ne_singleton (c := '*') (by decide) key
  apply run_expand_of_loneParameter? (loneParameter?_elementText hname key)
  rw [hlevels, Evaluators.expandParameter_element hname hall hstar hbinding hvalue hword]
  · rw [hget, Option.getD_some]
  · intro _
    rw [hget]
    rfl
  · rw [hget]
    exact hlength

end element

/-- **Any text is a key**: after an assignment to an element of an associative array under a quoted
key, the expansion of this element gives the value.  The key keeps its place among the keys of the
array or comes last, the elements under other keys are as before, and no other binding is another,
on any level. -/
theorem key_reads_back (hname : IsPlainName name)
    (hresolve : shell.store.resolve name = .ok (final, some b))
    (hvalue : b.value = .associative elements) (hreadonly : b.attributes.readonly = false)
    (hinteger : b.attributes.integer = false) (key : String)
    (hlength : (value.length : Int) ≤ shell.store.limits.stringLength) :
    ∃ reply store elements',
      (Action.assign (elementName name key) value .nearest false).run shell =
        (.ok reply, { shell with store := store }) ∧
      (Action.expand (elementText name key)).run { shell with store := store } =
        (.ok (.texts [value]), { shell with store := store }) ∧
      elements'.get? key = some value ∧
      (∀ other, other ≠ key → elements'.get? other = elements.get? other) ∧
      elements'.keys = (if key ∈ elements.keys then elements.keys else elements.keys ++ [key]) ∧
      Store.Sets shell.store (shell.store.level .nearest final) final
        (b.withValue (.associative elements')) store := by
  obtain ⟨reply, store, hassign, hsets⟩ :=
    run_assign_elementName hname hresolve hvalue hreadonly hinteger key value
  have hget : (elements.insert key value).get? key = some value := by
    rw [Table.get?_insert, if_pos rfl]
  have hlength' : (value.length : Int) ≤ store.limits.stringLength := by
    rw [hsets.limits]
    exact hlength
  have hexpand := run_expand_elementText hname { shell with store := store }
    (hsets.binding?_eq rfl hresolve) rfl hget hlength'
  refine ⟨reply, store, elements.insert key value, hassign, hexpand, hget, fun other hne => ?_,
    Table.keys_insert elements key value, hsets⟩
  rw [Table.get?_insert, if_neg hne]

/-- A key of delimiters and a value that looks like a literal, in a call, through a reference. -/
theorem key_reads_back_throughReference :
    let elements := Table.ofList [("@", "x"), ("", "y")]
    let b : Binding := ⟨.associative elements, ⟨false, false, true⟩, 7⟩
    let shell : Shell :=
      ⟨⟨[⟨"f", [], Table.empty.insert "r" ⟨.reference "m", .none, 0⟩⟩],
        ⟨"global", [], Table.empty.insert "m" b⟩, ⟨0, 2, 0, 3⟩⟩, true, "script", 0⟩
    let key := "]\x7d'\"$\n"
    ∃ reply store elements',
      (Action.assign (elementName "r" key) "(x)" .nearest false).run shell =
        (.ok reply, { shell with store := store }) ∧
      (Action.expand (elementText "r" key)).run { shell with store := store } =
        (.ok (.texts ["(x)"]), { shell with store := store }) ∧
      elements'.get? key = some "(x)" ∧
      (∀ other, other ≠ key → elements'.get? other = elements.get? other) ∧
      elements'.keys = (if key ∈ elements.keys then elements.keys else elements.keys ++ [key]) ∧
      Store.Sets shell.store (shell.store.level .nearest "m") "m"
        (b.withValue (.associative elements')) store :=
  key_reads_back ⟨by decide, by decide⟩ rfl rfl rfl rfl _ (by decide)

end Action

end ShellExpansion
