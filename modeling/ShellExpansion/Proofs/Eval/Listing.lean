import ShellExpansion.Proofs.Eval.Entries
import ShellExpansion.Proofs.Eval.Reading
import ShellExpansion.Proofs.Parameter.Elements
import ShellExpansion.Proofs.Store.Open

/-! # Arrays that list values

A literal without keys, assigned to an open name, makes an array that lists its values at the
indices from zero on (`assignLiteral_run`).  The expansions of all elements, of all keys and of all
elements quoted give these values, indices and quoted values, unless one of them is longer than a
result may be (`expandParameter_elements`, `expandParameter_keys`,
`expandParameter_quotedElements`). -/

namespace ShellExpansion

/-! ### Arrays -/

namespace IndexedArray

/-- The elements are the values, at the indices from zero on. -/
structure Lists (elements : IndexedArray) (values : List String) : Prop where
  values_eq : elements.values = values
  indices_eq : elements.indices = List.range values.length

theorem lists_empty : empty.Lists [] := ⟨rfl, rfl⟩

/-- A value written behind the listed ones is listed, too. -/
theorem Lists.insert {elements : IndexedArray} {values : List String} (h : elements.Lists values)
    (value : String) : (elements.insert values.length value).Lists (values ++ [value]) := by
  have hlt : ∀ entry ∈ elements.entries, entry.1 < values.length := by
    intro entry hentry
    have hindex : entry.1 ∈ elements.indices := List.mem_map_of_mem hentry
    rw [h.indices_eq] at hindex
    exact List.mem_range.mp hindex
  have hentries : (elements.insert values.length value).entries =
      elements.entries ++ [(values.length, value)] := insertEntry_of_lt value hlt
  have hvalues := h.values_eq
  have hindices := h.indices_eq
  constructor
  · rw [IndexedArray.values, hentries, List.map_append]
    rw [IndexedArray.values] at hvalues
    rw [hvalues]
    rfl
  · rw [IndexedArray.indices, hentries, List.map_append, List.length_append]
    rw [IndexedArray.indices] at hindices
    rw [hindices, List.length_singleton, List.range_succ]
    rfl

end IndexedArray

/-! ### Literals without keys -/

namespace Evaluators

open Eval

variable (deeper : Evaluators)

/-- Values without keys go behind the listed ones, one after the other. -/
theorem insertItems_values (name : String) (values : List String) :
    ∀ {front : List String} {elements : IndexedArray}, elements.Lists front →
      ∃ elements' : IndexedArray, elements'.Lists (front ++ values) ∧
        deeper.insertItems name false (values.map (ArrayItem.mk none)) front.length elements =
          pure elements' := by
  induction values with
  | nil =>
      intro front elements hlists
      refine ⟨elements, ?_, rfl⟩
      rwa [List.append_nil]
  | cons value values ih =>
      intro front elements hlists
      obtain ⟨elements', hlists', hrun⟩ := ih (hlists.insert value)
      refine ⟨elements', by simpa using hlists', ?_⟩
      rw [List.length_append, List.length_singleton] at hrun
      rw [List.map_cons, insertItems]
      dsimp only
      rw [pure_bind, stored_text, pure_bind]
      exact hrun

/-- **A literal without keys lists its values** in the array of an open name, and changes nothing
else. -/
theorem assignLiteral_run {name : String} (hname : isIdentifier name = true) {shell : Shell}
    (hdepth : 1 ≤ shell.store.limits.referenceDepth) (hopen : shell.store.Open name)
    (values : List String) :
    ∃ (elements : IndexedArray) (generation : Nat) (store : Store), elements.Lists values ∧
      deeper.assignLiteral name ⟨values.map (ArrayItem.mk none)⟩ .nearest false shell =
        (.ok ⟨.nearest, name⟩, { shell with store := store }) ∧
      Store.Sets shell.store (shell.store.level .nearest name) name
        ⟨.indexed elements, .none, generation⟩ store := by
  obtain ⟨prepared, b, hprepare, hget, hattributes, hvalue, hsets⟩ :=
    hopen.prepare_spec hname hdepth
  obtain ⟨elements, hlists, hitems⟩ :=
    deeper.insertItems_values name values IndexedArray.lists_empty
  have hitems' : deeper.insertItems name b.attributes.integer (values.map (ArrayItem.mk none)) 0
      IndexedArray.empty = pure elements := by
    rw [hattributes]
    exact hitems
  have hrun := deeper.assignLiteral_indexed_run hprepare hget hvalue hitems'
  rw [hattributes] at hrun
  exact ⟨elements, b.generation + 1, _, hlists, hrun, hsets _⟩

end Evaluators

/-! ### Expansions of listed values -/

namespace Eval

variable {α β : Type} {shell : Shell}

/-- A traversal whose steps leave the shell alone gives their results. -/
theorem mapM_run {f : α → Eval β} {g : α → β} {l : List α}
    (h : ∀ a ∈ l, f a shell = (.ok (g a), shell)) : l.mapM f shell = (.ok (l.map g), shell) := by
  induction l with
  | nil =>
      rw [List.mapM_nil]
      rfl
  | cons a l ih =>
      have hrest := ih fun a' ha' => h a' (List.mem_cons_of_mem a ha')
      rw [List.mapM_cons, bind_run_of_ok (h a List.mem_cons_self), bind_run_of_ok hrest]
      rfl

theorem words_run {values : List String}
    (h : ∀ value ∈ values, (value.length : Int) ≤ shell.store.limits.stringLength) :
    words values false shell = (.ok values, shell) := by
  have hlimited : ∀ value ∈ values, limited value shell = (.ok value, shell) :=
    fun value hvalue => limited_run_of_le (h value hvalue)
  have hrun := mapM_run (g := id) hlimited
  rwa [List.map_id] at hrun

/-- The first value that is too long ends the expansion. -/
theorem words_run_of_long {front rest : List String} {long : String}
    (hfront : ∀ value ∈ front, (value.length : Int) ≤ shell.store.limits.stringLength)
    (hlong : shell.store.limits.stringLength < long.length) :
    words (front ++ long :: rest) false shell =
      (.error (.error (.limit (.stringLength long.length shell.store.limits.stringLength))),
        shell) := by
  show (front ++ long :: rest).mapM limited shell = _
  induction front with
  | nil =>
      rw [List.nil_append, List.mapM_cons, bind_run, limited_run, if_pos hlong]
  | cons value front ih =>
      have hvalue := hfront value List.mem_cons_self
      have hrest := ih fun other hother => hfront other (List.mem_cons_of_mem value hother)
      rw [List.cons_append, List.mapM_cons, bind_run_of_ok (limited_run_of_le hvalue),
        bind_run_of_error hrest]

end Eval

namespace Evaluators

open Eval

variable (deeper : Evaluators) {name : String} {shell : Shell} {elements : IndexedArray}
  {attributes : Attributes} {generation : Nat}

/-- The name leads to an array with the elements. -/
def LeadsTo (shell : Shell) (name : String) (elements : IndexedArray) : Prop :=
  ∃ b, shell.store.binding? name = .ok (some b) ∧ b.value = .indexed elements

theorem valueNamed_run (h : LeadsTo shell name elements) :
    valueNamed name shell = (.ok (.indexed elements), shell) := by
  obtain ⟨b, hbinding, hvalue⟩ := h
  rw [valueNamed_of_binding? hbinding, hvalue]

theorem allValues_run (h : LeadsTo shell name elements) :
    allValues name shell = (.ok elements.values, shell) :=
  allValues_of_value (valueNamed_run h) nofun

theorem allKeys_run (h : LeadsTo shell name elements)
    (hwritable : ∀ index ∈ elements.indices, Text.isWritable index = true) :
    allKeys name shell = (.ok (elements.indices.map toString), shell) :=
  allKeys_of_value (valueNamed_run h) nofun hwritable

section expansions

variable (hname : IsPlainName name) (h : LeadsTo shell name elements)

include hname h

theorem reading_run (operation : Option Operation) :
    deeper.reading ⟨name, some "@", false, operation⟩ shell =
      (.ok ⟨withSubscript name (some "@"), .all elements.values false⟩, shell) := by
  have hdirect : deeper.directReading name (some "@") shell =
      (.ok (.all elements.values false), shell) := by
    rw [directReading_identifier deeper hname.identifier]
    show (allValues name >>= fun values => pure (Reading.all values false)) shell = _
    exact bind_run_of_ok (allValues_run h)
  exact bind_run_of_ok hdirect

theorem expandParameter_elements
    (hlength : ∀ value ∈ elements.values,
      (value.length : Int) ≤ shell.store.limits.stringLength) :
    deeper.expandParameter ⟨name, some "@", false, none⟩ shell = (.ok elements.values, shell) := by
  have happly : ∀ value ∈ elements.values,
      deeper.applyToText none (withSubscript name (some "@")) value shell = (.ok value, shell) :=
    fun _ _ => rfl
  have hvalues := mapM_run (g := id) happly
  rw [List.map_id] at hvalues
  unfold expandParameter
  dsimp only
  rw [bind_run_of_ok (deeper.reading_run hname h _)]
  dsimp only
  rw [bind_run_of_ok hvalues]
  exact words_run hlength

theorem expandParameter_quotedElements
    (hlength : ∀ value ∈ elements.values,
      ((Lexical.singleQuote value).length : Int) ≤ shell.store.limits.stringLength) :
    deeper.expandParameter ⟨name, some "@", false, some (.transform .quote)⟩ shell =
      (.ok (elements.values.map Lexical.singleQuote), shell) := by
  have happly : ∀ value ∈ elements.values,
      deeper.applyToText (some (.transform .quote)) (withSubscript name (some "@")) value shell =
        (.ok (Lexical.singleQuote value), shell) :=
    fun _ _ => rfl
  have hvalues := mapM_run happly
  unfold expandParameter
  dsimp only
  rw [bind_run_of_ok (deeper.reading_run hname h _)]
  dsimp only
  rw [bind_run_of_ok hvalues]
  apply words_run
  intro text htext
  obtain ⟨value, hvalue, rfl⟩ := List.mem_map.mp htext
  exact hlength value hvalue

omit hname in
theorem expandParameter_keys
    (hwritable : ∀ index ∈ elements.indices, Text.isWritable index = true) :
    deeper.expandParameter ⟨name, some "@", false, some (.keys false)⟩ shell =
      words (elements.indices.map toString) false shell := by
  unfold expandParameter
  dsimp only
  rw [bind_run_of_ok (allKeys_run h hwritable)]

omit hname in
theorem expandParameter_keys_unwritable {index : Nat} (hindex : index ∈ elements.indices)
    (hlong : Text.isWritable index = false) :
    deeper.expandParameter ⟨name, some "@", false, some (.keys false)⟩ shell =
      (.error .numberTooLong, shell) := by
  unfold expandParameter
  dsimp only
  rw [bind_run_of_error (allKeys_of_unwritable (valueNamed_run h) rfl hindex hlong)]

end expansions

end Evaluators

end ShellExpansion
