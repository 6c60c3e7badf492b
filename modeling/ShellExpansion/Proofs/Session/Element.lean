import ShellExpansion.Proofs.Arith.Element
import ShellExpansion.Proofs.Eval.Cell
import ShellExpansion.Proofs.Eval.Literal
import ShellExpansion.Proofs.Session.Key

/-! # Elements in expressions and in expansions

Where a word or an assignment names an element of an associative array, the subscript is expanded to
the key; where an expression does, its quotes are removed and nothing is expanded.  For a literal
subscript both give the same key, so that expressions read what expansions show, and write where
assignments write (`element_of_isLiteral`).  A subscript with a dollar sign means another element in
an expression (`Action.run_arithmetic_dollarSubscript`), and one with a digit that has no value ends
the evaluation (`Arith.parse_element_notANumber`). -/

namespace ShellExpansion

open Lexical

theorem IsPlainName.isName {name : String} (h : IsPlainName name) : Arith.IsName name := by
  obtain ⟨c, rest, hname, hc, hrest⟩ := h.exists_cons
  exact ⟨c, rest, hname, isLetter_of_isNameStart hc,
    fun d hd => isAlphanumeric_of_isNameChar (hrest d hd)⟩

namespace Evaluators

open Eval

variable {deeper : Evaluators} {name final subscript text : String} {b : Binding}
  {elements : Table String} {shell : Shell} {target : Arith.Target}

/-- A missing value counts as an empty one. -/
theorem valueOf_getD (deeper : Evaluators) (source : String) (value : Option String) :
    deeper.valueOf source (some (value.getD "")) = deeper.valueOf source value := by
  cases value with
  | some text => rfl
  | none =>
      have hblank : Text.strip "" = "" := by decide
      rw [Option.getD_none, valueOf, valueOf]
      dsimp only
      rw [if_pos hblank]

section expressions

variable (hlexeme : target.lexeme = .name name (some subscript))
  (hbinding : shell.store.binding? name = .ok (some b)) (hvalue : b.value = .associative elements)
  (source : String)

include hlexeme hbinding hvalue

/-- In an expression, the key is the subscript without its quotes. -/
theorem cell_associative : deeper.cell source target shell =
    (.ok (.element name (.text (unquote subscript))), shell) := by
  have hassociative := isAssociative_of_binding? hbinding hvalue
  match target with
  | .element array index written | .keyed array written =>
      cases hlexeme
      rw [cell, bind_run_of_ok hassociative]
      rfl

theorem expr_read_associative : deeper.expr source (.read target) shell =
    deeper.valueOf source (elements.get? (unquote subscript)) shell := by
  rw [expr, bind_run_of_ok (cell_associative hlexeme hbinding hvalue source), readCell,
    bind_run_of_ok (getElement?_associative hbinding hvalue rfl)]

theorem expr_assign_associative (c : Int) :
    deeper.expr source (.assign none target (.ofInt c)) shell =
      (do
        discard (deeper.setElement name (.text (unquote subscript)) (toString (Arith.wrap c)) false
          .nearest)
        return Arith.wrap c : Eval Int) shell := by
  rw [expr, expr_ofInt, pure_bind]
  dsimp only
  rw [pure_bind, bind_run_of_ok (cell_associative hlexeme hbinding hvalue source)]
  rfl

end expressions

/-- An assignment to an element writes under the key that its subscript expands to. -/
theorem assign_element {key : String} (hname : IsPlainName name)
    (hbinding : shell.store.binding? name = .ok (some b)) (hvalue : b.value = .associative elements)
    (hword : deeper.word .text subscript = pure key) :
    deeper.assign (withSubscript name (some subscript)) text .nearest false shell =
      deeper.setElement name (.text key) text false .nearest shell := by
  rw [assign, splitSubscript_withSubscript hname]
  dsimp only
  rw [bind_run_of_ok (elementKey_of_word hbinding hvalue hword)]

/-- **Expressions and expansions address the same element** of an associative array, if nothing in
its subscript is expanded.  In an expression the element has the integer that its expansion stands
for, zero if it is missing; and an integer that is assigned to it is written as the assignment of
this integer to the element writes it, under the subscript without its quotes. -/
theorem element_of_isLiteral (hname : IsPlainName name)
    (hresolve : shell.store.resolve name = .ok (final, some b))
    (hvalue : b.value = .associative elements) (hnounset : shell.nounset = false)
    (hcloses : Closes '[' ']' subscript.toList) (hall : subscript ≠ "@") (hstar : subscript ≠ "*")
    (hliteral : Word.IsLiteral subscript) (hdigits : Arith.parse subscript ≠ .error .notANumber)
    (levels : Nat) :
    let element := withSubscript name (some subscript)
    let value? := elements.get? (unquote subscript)
    let deeper := evaluators (levels + 1)
    (Closes '\x7b' '\x7d' element.toList →
      ((value?.getD "").length : Int) ≤ shell.store.limits.stringLength →
      deeper.expand (valueText element) shell = (.ok [value?.getD ""], shell)) ∧
    ∃ target, Arith.parse element = .ok (.read target) ∧
      (∀ source, deeper.expr source (.read target) shell =
        deeper.valueOf source (some (value?.getD "")) shell) ∧
      (value? = none → ∀ source, deeper.expr source (.read target) shell = (.ok 0, shell)) ∧
      ∀ c, Arith.parse (element ++ " = " ++ Arith.integerText c) =
          .ok (.assign none target (.ofInt c)) ∧
        (∀ source, deeper.expr source (.assign none target (.ofInt c)) shell =
          (do
            discard (deeper.assign element (toString (Arith.wrap c)) .nearest false)
            return Arith.wrap c : Eval Int) shell) ∧
        (b.attributes.readonly = false → ∃ store,
          deeper.assign element (toString (Arith.wrap c)) .nearest false shell =
            (.ok ⟨.nearest, final⟩, { shell with store := store }) ∧
          Store.Sets shell.store (shell.store.level .nearest final) final
            (b.withValue (.associative
              (elements.insert (unquote subscript) (toString (Arith.wrap c))))) store) := by
  intro element value? deeper
  have hbinding := Store.binding?_of_resolve hresolve
  have hword : deeper.word .text subscript = pure (unquote subscript) :=
    (evaluators levels).expandWord_of_isLiteral hliteral
  have hassign (text : String) : deeper.assign element text .nearest false shell =
      deeper.setElement name (.text (unquote subscript)) text false .nearest shell :=
    assign_element hname hbinding hvalue hword
  obtain ⟨target, hlexeme, hindexed⟩ := Arith.exists_indexed_target name hdigits
  have hread (source : String) : deeper.expr source (.read target) shell =
      deeper.valueOf source value? shell := expr_read_associative hlexeme hbinding hvalue source
  have hparse := Arith.parse_element hname.isName hcloses hlexeme hindexed
  refine ⟨fun hbraces hlength => ?_, target, hparse, fun source => ?_, fun hmissing source => ?_,
    fun c => ⟨?_, fun source => ?_, fun hreadonly => ?_⟩⟩
  · rw [expand, loneParameter?_element hname hcloses hbraces]
    exact expandParameter_element hname hall hstar hbinding hvalue hword
      (fun h => absurd (h.symm.trans hnounset) Bool.true_eq_false.mp) hlength
  · rw [valueOf_getD, hread]
  · rw [hread, hmissing]
    rfl
  · exact Arith.parse_element_assignment hname.isName hcloses hlexeme hindexed c
  · rw [expr_assign_associative hlexeme hbinding hvalue, bind_run, bind_run, discard_run,
      discard_run, hassign]
  · have hfits := Arith.fits_wrap c
    have hstored : deeper.stored b.attributes.integer (toString (Arith.wrap c)) none =
        pure (toString (Arith.wrap c)) := stored_decimal hfits levels _
    obtain ⟨store, hset, hsets⟩ :=
      setElement_associative_run hresolve hvalue hreadonly hstored (unquote subscript)
    exact ⟨store, (hassign _).trans hset, hsets⟩

/-- Quotes of both kinds and an escaped dollar sign, through a reference to an array of integers. -/
theorem element_of_isLiteral_quoted :
    let subscript := "'a b'\"]$\"\\$"
    let element := withSubscript "r" (some subscript)
    let elements := Table.ofList [("a b]$$", "5")]
    let b : Binding := ⟨.associative elements, ⟨true, false, true⟩, 7⟩
    let shell : Shell :=
      ⟨⟨[⟨"f", [], Table.empty.insert "r" ⟨.reference "m", .none, 0⟩⟩],
        ⟨"global", [], Table.empty.insert "m" b⟩, ⟨0, 2, 0, 3⟩⟩, false, "script", 0⟩
    (evaluators 1).expand (valueText element) shell = (.ok ["5"], shell) ∧
      ∃ target store, Arith.parse element = .ok (.read target) ∧
        (evaluators 1).expr "" (.read target) shell =
          (evaluators 1).valueOf "" (some "5") shell ∧
        Arith.parse (element ++ " = " ++ Arith.integerText 6) =
          .ok (.assign none target (.ofInt 6)) ∧
        (evaluators 1).assign element "6" .nearest false shell =
          (.ok ⟨.nearest, "m"⟩, { shell with store := store }) ∧
        Store.Sets shell.store (shell.store.level .nearest "m") "m"
          (b.withValue (.associative (elements.insert "a b]$$" "6"))) store := by
  intro subscript element elements b shell
  have hname : IsPlainName "r" := ⟨by decide, by decide⟩
  have hresolve : shell.store.resolve "r" = .ok ("m", some b) := rfl
  have hcloses : Closes '[' ']' subscript.toList := by decide
  have hbraces : Closes '\x7b' '\x7d' element.toList := by decide
  have hliteral : Word.IsLiteral subscript := by decide +kernel
  have hdigits : Arith.parse subscript ≠ .error .notANumber := by decide +kernel
  have hkey : unquote subscript = "a b]$$" := by decide +kernel
  have hget : elements.get? "a b]$$" = some "5" := rfl
  have hsix : toString (Arith.wrap 6) = "6" := by decide
  obtain ⟨hexpand, target, hparse, hread, -, hwrite⟩ := element_of_isLiteral hname hresolve rfl rfl
    hcloses (by decide) (by decide) hliteral hdigits 0
  obtain ⟨hparse', -, hassign⟩ := hwrite 6
  obtain ⟨store, hstore, hsets⟩ := hassign rfl
  rw [hkey, hget] at hexpand
  have hread := hread ""
  rw [hkey, hget] at hread
  rw [hkey, hsix] at hsets
  rw [hsix] at hstore
  exact ⟨hexpand hbraces (by decide), target, store, hparse, hread, hparse', hstore, hsets⟩

end Evaluators

open Eval

/-- **A dollar sign in a subscript means nothing to expressions**: the element that the expansion
shows is not the one that is read. -/
theorem Action.run_arithmetic_dollarSubscript :
    let m : Binding := ⟨.associative (Table.ofList [("x", "5")]), .none, 0⟩
    let k : Binding := ⟨.scalar "x", .none, 0⟩
    let shell : Shell :=
      ⟨⟨[], ⟨"global", [], (Table.empty.insert "m" m).insert "k" k⟩, .standard⟩, false, "script", 0⟩
    (Action.expand "$\x7bm[$k]\x7d").run shell = (.ok (.texts ["5"]), shell) ∧
      (Action.valueOf (some "5") "m[$k]").run shell = (.ok (.integer 5), shell) ∧
      (Action.arithmetic "m[$k]").run shell = (.ok (.integer 0), shell) := by
  intro m k shell
  have hexpand : (evaluators shell.store.limits.nesting).expand "$\x7bm[$k]\x7d" shell =
      (.ok ["5"], shell) := by
    show (_ : Except Fault (List String) × Shell) = _
    decide +kernel
  have hvalue : (evaluators shell.store.limits.nesting).valueOf "m[$k]" (some "5") shell =
      (.ok 5, shell) := by
    have hnumber : Evaluators.plainNumber? "5" = some (false, "5") := by decide +kernel
    have hconstant : Arith.constant "m[$k]" "5" = .ok 5 := Arith.constant_numeral "m[$k]" 5
    have hstrip : Text.strip "5" = "5" := by decide
    have hshown : Evaluators.shownSource "m[$k]" "5" = "m[$k]" := rfl
    have hfive : ¬"5" = "" := by decide
    unfold Evaluators.valueOf
    dsimp only
    rw [hstrip, if_neg hfive, hnumber, hshown]
    dsimp only
    rw [hconstant]
    rfl
  have hread : (evaluators shell.store.limits.nesting).evaluate "m[$k]" shell = (.ok 0, shell) := by
    show (_ : Except Fault Int × Shell) = _
    decide +kernel
  refine ⟨?_, ?_, ?_⟩
  · rw [run_expand]
    exact bind_run_of_ok hexpand
  · rw [run_eq rfl, perform]
    exact bind_run_of_ok hvalue
  · rw [run_eq rfl, perform]
    exact bind_run_of_ok hread

end ShellExpansion
