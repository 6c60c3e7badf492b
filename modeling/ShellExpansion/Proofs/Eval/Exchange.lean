import ShellExpansion.Proofs.Eval.Cell
import ShellExpansion.Proofs.Eval.Writes
import ShellExpansion.Proofs.Store.Lasting

/-! # Elements that are read and written

A compound assignment and a step read an element and write it again.  Reading and writing evaluate
the index of the element, each for itself.  If the index repeats (`Evaluators.Repeats`), that is, if
it gives the same again and changes nothing when it is evaluated behind the reading, then only one
element is touched, and the result and the shell are those of one evaluation of the index and one
exchange of the element (`Evaluators.expr_exchange`).  An index without effects repeats
(`Evaluators.repeats_of_inert`).  An index that is a step itself does not, and one element is read
and another one written (`Evaluators.expr_exchange_stepIndex`). -/

namespace ShellExpansion

/-! ### Names of indexed arrays -/

namespace Store

variable {s s' : Store} {name : String}

/-- The name leads to an indexed array or to what can become one: to a variable without an array, or
to an unbound name. -/
def LeadsToIndexed (s : Store) (name : String) : Prop :=
  ∃ final found, s.resolve name = .ok (final, found) ∧
    ∀ b ∈ found, b.value.kind? = none ∨ b.value.kind? = some .indexed

theorem LeadsToIndexed.after (h : s.LeadsToIndexed name) (hwrites : Writes .nearest s s') :
    s'.LeadsToIndexed name := by
  obtain ⟨final, found, hresolve, hkind⟩ := h
  have hplain : ∀ b ∈ found, b.value.isReference = false := by
    intro b hb
    have hb := hkind b hb
    cases hvalue : b.value with
    | reference target => simp [hvalue, Value.kind?] at hb
    | _ => rfl
  obtain ⟨found', hresolve', hrewritten⟩ := hwrites.resolve_rewritten hresolve hplain
  exact ⟨final, found', hresolve', fun b hb =>
    (hrewritten b hb).value.kind? (getD_unset_of_forall hkind (.inl rfl))⟩

end Store

open Evaluators

/-! ### Expressions without effects -/

/-- The integer of a cell is read off its text, which is blank or a plain number, or is missing. -/
def Cell.IsSettled (cell : Cell) (shell : Shell) : Prop :=
  ∀ text, (cell.text? shell).1 = .ok (some text) →
    Text.strip text = "" ∨ (plainNumber? (Text.strip text)).isSome = true

namespace Arith

mutual

/-- An expression has no effects on a shell: it holds no assignment, no step and no expansion, and
the integers that it reads are read off the texts of variables and elements. -/
def Expr.Inert (shell : Shell) : Expr → Prop
  | .number _ => True
  | .read target => target.Inert shell
  | .parameter _ => False
  | .binary _ left right => left.Inert shell ∧ right.Inert shell
  | .unary _ operand => operand.Inert shell
  | .preStep _ _ => False
  | .postStep _ _ => False
  | .ternary condition consequent alternate =>
    condition.Inert shell ∧ consequent.Inert shell ∧ alternate.Inert shell
  | .assign _ _ _ => False
  | .group inner => inner.Inert shell

/-- The reading of a target has no effects on a shell. -/
def Target.Inert (shell : Shell) : Target → Prop
  | .variable name => (Cell.variable name).IsSettled shell
  | .element array index _ =>
    index.Inert shell ∧ ∀ key, (Cell.element array key).IsSettled shell
  | .keyed array _ => ∀ key, (Cell.element array key).IsSettled shell

end

end Arith

namespace Evaluators

open Eval
open Arith (Expr Target)

variable {deeper : Evaluators} {source array subscript : String} {index : Expr}
  {shell shell' : Shell}

theorem readCell_eq (deeper : Evaluators) (source : String) (cell : Cell) :
    deeper.readCell source cell = (do deeper.valueOf source (← cell.text?)) := by
  cases cell <;> rfl

theorem respects_text? {R : Shell → Shell → Prop} [IsPreorder Shell R] (cell : Cell) :
    Respects R cell.text? := by
  match cell with
  | .variable name => exact .query
  | .element array key => exact respects_getElement? array key

/-- What holds the decimal text of an integer of the range reads as the integer. -/
theorem readCell_of_text? {cell : Cell} {n : Int} (hn : Arith.Fits n)
    (htext : cell.text? shell = (.ok (some (toString n)), shell)) :
    deeper.readCell source cell shell = (.ok n, shell) := by
  rw [readCell_eq, bind_run_of_ok htext, valueOf_decimal hn]
  rfl

/-- A settled cell is read without effects. -/
theorem readCell_settled {cell : Cell} (h : cell.IsSettled shell) :
    (deeper.readCell source cell shell).2 = shell := by
  have hleaves : (cell.text? shell).2 = shell :=
    respects_text? (R := Keeping (· = shell)) cell shell rfl
  rw [readCell_eq, bind_run]
  cases hrun : cell.text? shell with
  | mk result between =>
      rw [hrun] at hleaves
      obtain rfl : between = shell := hleaves
      match result with
      | .error fault => rfl
      | .ok none => rfl
      | .ok (some text) =>
          have htext := h text (by rw [hrun])
          show (deeper.valueOf source (some text) _).2 = _
          unfold valueOf
          dsimp only
          split_ifs with hempty
          · rfl
          · obtain ⟨number, hnumber⟩ := Option.isSome_iff_exists.mp (htext.resolve_left hempty)
            rw [hnumber]
            dsimp only
            cases Arith.constant (shownSource source (Text.strip text)) number.2 <;> rfl

/-- What is read as an element of an array without effects is read without effects. -/
theorem readElement_inert {array : String} {t : Target}
    (hcell : Respects (Keeping (· = shell)) (deeper.cell source t))
    (helement : Yields (fun cell => ∃ key, cell = .element array key) (deeper.cell source t))
    (hcells : ∀ key, (Cell.element array key).IsSettled shell) :
    Respects (Keeping (· = shell)) (do deeper.readCell source (← deeper.cell source t)) := by
  intro at'
  refine respects_bind_at (hcell at') fun cell between hrun => ?_
  obtain ⟨key, rfl⟩ := helement hrun
  rintro rfl
  exact readCell_settled (hcells key)

mutual

/-- **An expression without effects leaves the shell alone.** -/
theorem expr_inert : ∀ {e : Expr}, e.Inert shell →
    Respects (Keeping (· = shell)) (deeper.expr source e)
  | .number n, _ => .pure (Arith.wrap n)
  | .read t, h => readTarget_inert h
  | .group inner, h => expr_inert (e := inner) h
  | .binary op left right, ⟨hleft, hright⟩ => by
      have hoperate (op : Arith.BinaryOp) (l : Int) : Respects (Keeping (· = shell))
          (do operate source op l (← deeper.expr source right)) :=
        .bind (expr_inert hright) fun r => RespectAll.operate source op l r
      unfold expr
      refine .bind (expr_inert hleft) fun l => ?_
      cases op with
      | and => exact .ite (.pure 0) (hoperate .and l)
      | or => exact .ite (.pure 1) (hoperate .or l)
      | _ => exact hoperate _ l
  | .unary op operand, h => .bind (expr_inert (e := operand) h) fun _ => .pure _
  | .ternary condition consequent alternate, ⟨hcondition, hconsequent, halternate⟩ =>
      .bind (expr_inert hcondition) fun _ => .ite (expr_inert hconsequent) (expr_inert halternate)

/-- So does the reading of a target. -/
theorem readTarget_inert : ∀ {t : Target}, t.Inert shell →
    Respects (Keeping (· = shell)) (do deeper.readCell source (← deeper.cell source t))
  | .variable name, h => by
      rintro at' rfl
      exact readCell_settled h
  | .element array index subscript, ⟨hindex, hcells⟩ =>
      readElement_inert
        (.bind (respects_isAssociative array) fun _ =>
          .ite (.pure _) (.bind (expr_inert hindex) fun _ => .pure _))
        (.behind fun _ => .ite (.pure ⟨_, rfl⟩) (.behind fun _ => .pure ⟨_, rfl⟩)) hcells
  | .keyed array subscript, hcells =>
      readElement_inert (.bind (respects_isAssociative array) fun _ => .ite (.pure _) (.refuse _))
        (.behind fun _ => .ite (.pure ⟨_, rfl⟩) (.refuse _)) hcells

end

/-! ### Exchanges -/

theorem isAssociative_of_leadsToIndexed (h : shell.store.LeadsToIndexed array) :
    isAssociative array shell = (.ok false, shell) := by
  obtain ⟨final, found, hresolve, hkind⟩ := h
  rw [isAssociative, bind_run_of_ok (valueNamed_of_resolve hresolve)]
  cases found with
  | none => rfl
  | some b =>
      have hb := hkind b rfl
      obtain ⟨value, attributes, generation⟩ := b
      cases value with
      | associative elements => simp [Value.kind?] at hb
      | _ => rfl

/-- The cell of an element is found by its index. -/
theorem cell_indexed (h : shell.store.LeadsToIndexed array) :
    deeper.cell source (.element array index subscript) shell =
      (do return Cell.element array (.index (← deeper.expr source index)) : Eval Cell) shell := by
  unfold cell
  rw [bind_run_of_ok (isAssociative_of_leadsToIndexed h)]
  rfl

/-- Reads an element of an indexed array, works out an integer from the one that was read, and
writes it to the same element.  The result is made of the integers before and after. -/
def exchange (deeper : Evaluators) (source array : String) (k : Int) (update : Int → Eval Int)
    (result : Int → Int → Int) : Eval Int := do
  let old ← deeper.readCell source (.element array (.index k))
  let new ← update old
  deeper.writeCell new (.element array (.index k))
  return result old new

/-- The index gives the same again, and changes nothing, when it is evaluated behind the reading of
its element. -/
def Repeats (deeper : Evaluators) (source array : String) (index : Arith.Expr) (shell : Shell) :
    Prop :=
  ∀ ⦃k between old shell'⦄, deeper.expr source index shell = (.ok k, between) →
    deeper.readCell source (.element array (.index k)) between = (.ok old, shell') →
    deeper.expr source index shell' = (.ok k, shell')

/-- **An index that repeats is as good as one that is evaluated once.** -/
theorem exchange_of_repeats (hdeeper : deeper.OnlyWrite)
    (harray : shell.store.LeadsToIndexed array) (hrepeats : deeper.Repeats source array index shell)
    (update : Int → Eval Int) (hupdate : ∀ old shell, (update old shell).2 = shell)
    (result : Int → Int → Int) :
    (do
      let old ← deeper.readCell source (← deeper.cell source (.element array index subscript))
      let new ← update old
      deeper.writeCell new (← deeper.cell source (.element array index subscript))
      return result old new : Eval Int) shell =
    (do deeper.exchange source array (← deeper.expr source index) update result) shell := by
  rw [bind_run, cell_indexed harray, bind_run, bind_run]
  have hwrites := hdeeper.respectAll.expr source index shell
  cases hindex : deeper.expr source index shell with
  | mk found between =>
      rw [hindex] at hwrites
      cases found with
      | error fault => rfl
      | ok k =>
          refine bind_congr_at rfl fun old behind hread => bind_congr_at rfl fun new last hnew => ?_
          obtain rfl : last = behind := by
            have hsame := hupdate old behind
            rwa [hnew] at hsame
          -- Whatever the index and the element wrote, the array has not become associative.
          have hafter : Shell.Writes .nearest shell last :=
            hwrites.trans ((hdeeper.respectAll.readCell source _).of_run hread)
          rw [bind_run, cell_indexed (harray.after hafter.store),
            bind_run_of_ok (hrepeats hindex hread)]
          rfl

theorem operate_snd (op : Arith.BinaryOp) (left right : Int) (shell : Shell) :
    (operate source op left right shell).2 = shell := by
  unfold operate
  cases op.apply left right <;> rfl

/-- **An index without effects repeats**, if the element that it selects is read without effects. -/
theorem repeats_of_inert (hindex : index.Inert shell)
    (helement : ∀ k, (deeper.expr source index shell).1 = .ok k →
      (Cell.element array (.index k)).IsSettled shell) :
    deeper.Repeats source array index shell := by
  intro k between old shell' hrun hread
  have hkeeps : Respects (Keeping (· = shell)) (deeper.expr source index) := expr_inert hindex
  obtain rfl : between = shell := hkeeps.of_run hrun rfl
  have hreads : (deeper.readCell source (.element array (.index k)) between).2 = between :=
    readCell_settled (helement k (by rw [hrun]))
  rw [hread] at hreads
  obtain rfl : shell' = between := hreads
  exact hrun

/-- **Reading and writing touch one element.**  Let a name lead to an indexed array, to a variable
without an array, or to nothing.  A compound assignment to an element of it, whose index repeats
behind the value, gives what is given, and leaves the shell that is left, when the value and then
the index are evaluated once, and the element is read, combined with the value and written.  So does
a step of an element whose index repeats; the result is the new integer if the step stands in front,
and the old one if it stands behind. -/
theorem expr_exchange (levels : Nat) (source subscript : String) {array : String}
    {index : Arith.Expr} {shell : Shell} (harray : shell.store.LeadsToIndexed array) :
    (∀ op value,
      (∀ n between, (evaluators levels).expr source value shell = (.ok n, between) →
        (evaluators levels).Repeats source array index between) →
      (evaluators levels).expr source (.assign (some op) (.element array index subscript) value)
          shell =
        (do
          let n ← (evaluators levels).expr source value
          let k ← (evaluators levels).expr source index
          (evaluators levels).exchange source array k (operate source op · n)
            fun _ new => new) shell) ∧
    ((evaluators levels).Repeats source array index shell → ∀ op,
      (evaluators levels).expr source (.preStep op (.element array index subscript)) shell =
        (do
          let k ← (evaluators levels).expr source index
          (evaluators levels).exchange source array k (fun old => return op.apply old)
            fun _ new => new) shell ∧
      (evaluators levels).expr source (.postStep op (.element array index subscript)) shell =
        (do
          let k ← (evaluators levels).expr source index
          (evaluators levels).exchange source array k (fun old => return op.apply old)
            fun old _ => old) shell) := by
  have hdeeper := evaluators_onlyWrite levels
  refine ⟨fun op value hrepeats => ?_, fun hrepeats op => ⟨?_, ?_⟩⟩
  · rw [expr]
    refine bind_congr_at rfl fun n between hvalue => ?_
    have hwrites := hdeeper.respectAll.expr source value shell
    rw [hvalue] at hwrites
    exact exchange_of_repeats hdeeper (harray.after hwrites.store) (hrepeats n between hvalue)
      (operate source op · n) (fun old => operate_snd op old n) fun _ new => new
  · rw [expr]
    exact exchange_of_repeats hdeeper harray hrepeats (fun old => return op.apply old)
      (fun _ _ => rfl) fun _ new => new
  · rw [expr]
    exact exchange_of_repeats hdeeper harray hrepeats (fun old => return op.apply old)
      (fun _ _ => rfl) fun old _ => old

/-- An index that assigns the same integer each time it is evaluated, and a scalar that becomes an
array. -/
theorem expr_exchange_assigningIndex :
    let shell (bindings : Table Binding) : Shell :=
      ⟨⟨[], ⟨"global", [], bindings⟩, .standard⟩, false, "script", 0⟩
    let before := shell (Table.empty.insert "a" ⟨.scalar "x", .none, 0⟩)
    let after (text : String) := shell ((Table.empty.insert "a"
      ⟨.indexed ((IndexedArray.singleton "x").insert 2 text), .none, 0⟩).insert
      "i" ⟨.scalar "2", .none, 0⟩)
    let index : Arith.Expr := .assign none (.variable "i") (.number 2)
    before.store.LeadsToIndexed "a" ∧ (evaluators 2).Repeats "" "a" index before ∧
      (evaluators 2).expr "" (.assign (some .sub) (.element "a" index "i=2") (.number 5)) before =
        (.ok (-5), after "-5") ∧
      (evaluators 2).expr "" (.postStep .increment (.element "a" index "i=2")) before =
        (.ok 0, after "1") := by
  intro shell before after index
  let between := shell ((Table.empty.insert "a" ⟨.scalar "x", .none, 0⟩).insert
    "i" ⟨.scalar "2", .none, 0⟩)
  let run (at' : Shell) : Except Fault Int × Shell := (evaluators 2).expr "" index at'
  let read (at' : Shell) : Except Fault Int × Shell :=
    (evaluators 2).readCell "" (.element "a" (.index 2)) at'
  have harray : before.store.LeadsToIndexed "a" :=
    ⟨"a", some ⟨.scalar "x", .none, 0⟩, by decide, by rintro b ⟨⟩; exact .inl rfl⟩
  have hrepeats : (evaluators 2).Repeats "" "a" index before := by
    have hfirst : run before = (.ok 2, between) := by decide +kernel
    have hread : read between = (.ok 0, between) := by decide +kernel
    have hagain : run between = (.ok 2, between) := by decide +kernel
    intro k at' old behind hindex hold
    cases hfirst.symm.trans hindex
    cases hread.symm.trans hold
    exact hagain
  have hvalue : ∀ n at', (evaluators 2).expr "" (.number 5) before = (.ok n, at') →
      (evaluators 2).Repeats "" "a" index at' := by
    rintro n at' hrun
    cases hrun
    exact hrepeats
  obtain ⟨hassign, hstep⟩ := expr_exchange 2 "" "i=2" harray
  refine ⟨harray, hrepeats, ?_, ?_⟩
  · rw [hassign .sub (.number 5) hvalue]
    show (_ : Except Fault Int × Shell) = _
    decide +kernel
  · rw [(hstep hrepeats .increment).2]
    show (_ : Except Fault Int × Shell) = _
    decide +kernel

/-- **An index that is a step is evaluated twice**: one element is read, the one behind it is
written, and the variable is stepped twice. -/
theorem expr_exchange_stepIndex :
    let elements (first second : String) : IndexedArray :=
      ((IndexedArray.empty.insert 0 first).insert 1 second).insert 2 "30"
    let shell (i first second : String) : Shell :=
      ⟨⟨[], ⟨"global", [], (Table.empty.insert "i" ⟨.scalar i, .none, 0⟩).insert
        "a" ⟨.indexed (elements first second), .none, 0⟩⟩, .standard⟩, false, "script", 0⟩
    let index : Arith.Expr := .postStep .increment (.variable "i")
    let deeper := evaluators 2
    (shell "0" "10" "20").store.LeadsToIndexed "a" ∧
      deeper.expr "" (.assign (some .add) (.element "a" index "i++") (.number 5))
        (shell "0" "10" "20") = (.ok 15, shell "2" "10" "15") ∧
      (do
        let n ← deeper.expr "" (.number 5)
        let k ← deeper.expr "" index
        deeper.exchange "" "a" k (operate "" .add · n) fun _ new => new) (shell "0" "10" "20") =
          (.ok 15, shell "1" "15" "20") := by
  intro elements shell index deeper
  have hi (i first second : String) : (shell i first second).store.get? "i" = .ok (some i) := rfl
  have ha (i first second : String) : (shell i first second).store.binding? "a" =
      .ok (some ⟨.indexed (elements first second), .none, 0⟩) := rfl
  have hstep (m : Int) (hm : Arith.Fits m) (first second : String) :
      deeper.expr "" index (shell (toString m) first second) =
        (.ok m, shell (toString (Arith.wrap (m + 1))) first second) := by
    have hread : deeper.readCell "" (.variable "i") (shell (toString m) first second) =
        (.ok m, shell (toString m) first second) := by
      rw [readCell, bind_run_of_ok (query_run_of_ok (hi ..)), valueOf_decimal hm]
      rfl
    have hindex : index = .postStep .increment (.variable "i") := rfl
    rw [hindex, expr, cell, pure_bind, bind_run_of_ok hread, pure_bind]
    rfl
  have hread (i : String) : deeper.readCell "" (.element "a" (.index 0)) (shell i "10" "20") =
      (.ok 10, shell i "10" "20") := by
    have hten : Arith.Fits 10 := by decide
    have hfound : (elements "10" "20").getFromEnd? 0 = some (toString (10 : Int)) := by decide
    rw [readCell, bind_run_of_ok (getElement?_indexed (ha ..) rfl rfl), hfound,
      valueOf_decimal hten]
    rfl
  have hzero : deeper.expr "" index (shell "0" "10" "20") = (.ok 0, shell "1" "10" "20") :=
    hstep 0 (by decide) "10" "20"
  have hone : deeper.expr "" index (shell "1" "10" "20") = (.ok 1, shell "2" "10" "20") :=
    hstep 1 (by decide) "10" "20"
  have harray (i first second : String) : (shell i first second).store.LeadsToIndexed "a" :=
    ⟨"a", some ⟨.indexed (elements first second), .none, 0⟩, rfl, by rintro b ⟨⟩; exact .inr rfl⟩
  have hcell (i first second : String) : deeper.cell "" (.element "a" index "i++")
      (shell i first second) =
      (do return Cell.element "a" (.index (← deeper.expr "" index)) : Eval Cell)
        (shell i first second) := cell_indexed (harray ..)
  have hfive (at' : Shell) : deeper.expr "" (.number 5) at' = (.ok 5, at') := by
    have hwrap : Arith.wrap 5 = 5 := by decide
    rw [expr, hwrap]
    rfl
  have hsum : operate "" .add 10 5 = pure 15 := by
    have happly : Arith.BinaryOp.add.apply 10 5 = .ok 15 := by decide
    rw [operate, happly]
  refine ⟨harray .., ?_, ?_⟩
  · have hfirst : deeper.cell "" (.element "a" index "i++") (shell "0" "10" "20") =
        (.ok (.element "a" (.index 0)), shell "1" "10" "20") :=
      (hcell ..).trans (bind_run_of_ok hzero)
    have hsecond : deeper.cell "" (.element "a" index "i++") (shell "1" "10" "20") =
        (.ok (.element "a" (.index 1)), shell "2" "10" "20") :=
      (hcell ..).trans (bind_run_of_ok hone)
    rw [expr, bind_run_of_ok (hfive _)]
    dsimp only
    rw [bind_run_of_ok hfirst, bind_run_of_ok (hread _), hsum, pure_bind, bind_run_of_ok hsecond]
    show (_ : Except Fault Int × Shell) = _
    decide +kernel
  · rw [bind_run_of_ok (hfive _), bind_run_of_ok hzero, exchange, bind_run_of_ok (hread _)]
    show (_ : Except Fault Int × Shell) = _
    decide +kernel

end Evaluators

end ShellExpansion
