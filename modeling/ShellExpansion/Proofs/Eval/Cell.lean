import ShellExpansion.Proofs.Eval.Entries
import ShellExpansion.Proofs.Eval.Range
import ShellExpansion.Proofs.Eval.Reading
import ShellExpansion.Proofs.Store.Assignment

/-! # What expressions write

An assignment and a step write one integer to one variable or element (`Expr.written?`), and do so
last.  The integer is in the signed 64-bit range, and what is stored is its decimal text: a variable
takes it as it is, and the integer attribute of an array evaluates it to the same integer again
(`writeCell_reads`).  So all of arithmetic stays in the range (`evaluation_fits`). -/

namespace ShellExpansion

open Arith (Fits)

/-- The text that a cell holds. -/
def Cell.text? : Cell → Eval (Option String)
  | .variable name => Eval.query (·.get? name)
  | .element array key => Eval.getElement? array key

/-- The number that an expression writes if it gives `n`, and the target that it is written to. -/
def Arith.Expr.written? : Arith.Expr → Int → Option (Arith.Target × Int)
  | .assign _ target _, n => some (target, n)
  | .preStep _ target, n => some (target, n)
  | .postStep op target, n => some (target, op.apply n)
  | _, _ => none

namespace Evaluators

open Eval

variable {levels : Nat} {m : Int} {name : String} {cell : Cell} {shell shell' : Shell}

/-- **The integer attribute leaves the decimal text of an integer of the range alone.** -/
theorem stored_decimal (hm : Fits m) (levels : Nat) (integer : Bool) :
    (evaluators (levels + 1)).stored integer (toString m) none = pure (toString m) := by
  cases integer with
  | false => exact stored_text _ _
  | true =>
      unfold stored
      rw [if_pos rfl, Text.allBlank_decimal, if_neg Bool.false_ne_true, evaluate_decimal hm,
        pure_bind]

/-- The exhausted evaluators evaluate nothing. -/
theorem evaluate_exhausted {text : String} {n : Int} :
    (evaluators 0).evaluate text shell ≠ (.ok n, shell') := by
  unfold evaluate
  intro h
  cases hparse : Arith.parse text with
  | ok e =>
      rw [hparse] at h
      cases h
  | error fault =>
      rw [hparse] at h
      cases h

/-- They store nothing for the integer attribute. -/
theorem stored_decimal_eq_ok (hm : Fits m) {integer : Bool} {text : String}
    (h : (evaluators levels).stored integer (toString m) none shell = (.ok text, shell')) :
    text = toString m ∧ shell' = shell := by
  cases levels with
  | succ levels =>
      rw [stored_decimal hm] at h
      cases h
      exact ⟨rfl, rfl⟩
  | zero =>
      cases integer with
      | false =>
          rw [stored_text] at h
          cases h
          exact ⟨rfl, rfl⟩
      | true =>
          unfold stored at h
          rw [if_pos rfl, Text.allBlank_decimal, if_neg Bool.false_ne_true] at h
          obtain ⟨n, between, hn, -⟩ := bind_eq_ok h
          exact absurd hn evaluate_exhausted

/-! ### Cells -/

theorem assign_reads {place : Store.Place}
    (h : change (·.assign name (toString m) .nearest false) shell = (.ok place, shell')) :
    shell'.store.get? name = .ok (some (toString m)) := by
  obtain ⟨store, hassign, rfl⟩ := change_eq_ok h
  obtain ⟨hplace, -, value, hvalue, -⟩ := Store.assign_sets hassign
  obtain ⟨⟨final, found⟩, hresolve, -⟩ := exists_of_map_eq_ok hplace
  rw [Store.place_nearest hresolve] at hplace
  cases hplace
  -- A reference takes no number as its target.
  refine Store.get?_of_assign hresolve ?_ hassign
  rintro ⟨old, attributes, generation⟩ hfound
  have hat : shell.store.at? ⟨.nearest, final⟩ = some ⟨old, attributes, generation⟩ :=
    (Store.resolve_spec hresolve).2.symm.trans hfound
  rw [Store.get_of_at? hat] at hvalue
  cases old with
  | reference target =>
      rw [Store.assigned, isIdentifier_decimal] at hvalue
      cases hvalue
  | _ => rfl

/-- A name that leads to a place is bound to what is put there. -/
theorem binding?_put {s : Store} {final : String} {b : Binding} {found : Option Binding}
    (hvalue : b.value.isReference = false) (hresolve : s.resolve name = .ok (final, found)) :
    (s.put ⟨.nearest, final⟩ b).binding? name = .ok (some b) :=
  Store.binding?_of_resolve (Store.resolve_put hvalue hresolve)

/-- An element is put into the array that was just put in the place of what stood there. -/
theorem putElement_opened {place : Store.Place} {begun : Binding}
    (hget : shell.store.get place = begun) (elements : IndexedArray) (n : Nat) (text : String) :
    putElement place begun (·.insertIndex n text)
        { shell with store := shell.store.putValue place (.indexed elements) } =
      (.ok (), { shell with
        store := (shell.store.putValue place (.indexed elements)).putValue place
          (.indexed (elements.insert n text)) }) := by
  have hopened : (shell.store.putValue place (.indexed elements)).get place =
      begun.withValue (.indexed elements) := by
    rw [Store.get_putValue, hget]
  have hgeneration : ((shell.store.putValue place (.indexed elements)).get place).generation =
      begun.generation := by
    rw [hopened]
    rfl
  rw [putElement_run hgeneration, hopened]
  rfl

/-- The part of a write to an element that is done behind the reading of its index: the array is put
in the place of what stood there, and then takes the value. -/
theorem putIndexed_eq_ok (hm : Fits m) {final : String} {begun : Binding} {found : Option Binding}
    {elements : IndexedArray} {n : Nat} {integer : Bool} {place : Store.Place}
    (hresolve : shell.store.resolve name = .ok (final, found))
    (hget : shell.store.get ⟨.nearest, final⟩ = begun)
    (h : (do
      setStore ((← store).putValue ⟨.nearest, final⟩ (.indexed elements))
      let text ← (evaluators levels).stored integer (toString m) none
      putElement ⟨.nearest, final⟩ begun (·.insertIndex n text)
      return ⟨.nearest, final⟩ : Eval Store.Place) shell = (.ok place, shell')) :
    ∃ b, shell'.store.binding? name = .ok (some b) ∧
      b.value = .indexed (elements.insert n (toString m)) := by
  have hresolve' : (shell.store.putValue ⟨.nearest, final⟩ (.indexed elements)).resolve name =
      .ok (final, some (begun.withValue (.indexed elements))) := by
    rw [Store.putValue, hget]
    exact Store.resolve_put rfl hresolve
  rw [store_bind_run] at h
  obtain ⟨done, between, hput, h⟩ := bind_eq_ok h
  cases hput
  obtain ⟨text, between, hstored, h⟩ := bind_eq_ok h
  obtain ⟨rfl, rfl⟩ := stored_decimal_eq_ok hm hstored
  rw [bind_run_of_ok (putElement_opened hget elements n _)] at h
  cases h
  exact ⟨_, binding?_put rfl hresolve', rfl⟩

/-- **An element that was written reads as the integer.** -/
theorem setElement_reads (hm : Fits m) {key : Key} {place : Store.Place}
    (h : (evaluators levels).setElement name key (toString m) false .nearest shell =
      (.ok place, shell')) :
    getElement? name key shell' = (.ok (some (toString m)), shell') := by
  unfold setElement at h
  obtain ⟨place', between, hprepare, h⟩ := bind_eq_ok h
  obtain ⟨prepared, hprepared, rfl⟩ := change_eq_ok hprepare
  obtain ⟨final, rfl, hresolve⟩ := Store.resolve_of_prepare hprepared
  rw [store_bind_run] at h
  dsimp only at h
  generalize hget : prepared.get ⟨.nearest, final⟩ = b at h hresolve
  cases hvalue : b.value with
  | reference target =>
      rw [hvalue] at h
      cases h
  | associative elements =>
      rw [hvalue] at h
      obtain ⟨selected, between, hkey, h⟩ := bind_eq_ok h
      rw [textOf_run] at hkey
      obtain ⟨hselected, rfl⟩ := Prod.mk.inj hkey
      obtain ⟨text, between, hstored, h⟩ := bind_eq_ok h
      obtain ⟨rfl, rfl⟩ := stored_decimal_eq_ok hm hstored
      rw [bind_run_of_ok (putElement_run (congrArg Binding.generation hget) _)] at h
      cases h
      rw [Store.putValue, hget, hvalue,
        getElement?_associative (binding?_put rfl hresolve) rfl hselected, Table.get?_insert,
        if_pos rfl]
  | _ =>
      rw [hvalue] at h
      dsimp only at h
      obtain ⟨index, between, hkey, h⟩ := bind_eq_ok h
      rw [indexOf_run] at hkey
      obtain ⟨hindex, rfl⟩ := Prod.mk.inj hkey
      cases index with
      | negSucc n =>
          dsimp only at h
          rw [refuseShowing_run] at h
          cases h
      | ofNat n =>
          obtain ⟨b', hbinding, hvalue'⟩ := putIndexed_eq_ok hm hresolve hget h
          rw [getElement?_indexed hbinding hvalue' hindex, IndexedArray.getFromEnd?_insert]

/-- **A cell that was written reads as the integer.** -/
theorem writeCell_reads (hm : Fits m)
    (h : (evaluators levels).writeCell m cell shell = (.ok (), shell')) :
    cell.text? shell' = (.ok (some (toString m)), shell') := by
  match cell with
  | .variable name =>
      obtain ⟨place, hassign⟩ := discard_eq_ok h
      show query (·.get? name) shell' = _
      rw [query_run, assign_reads hassign]
  | .element array key =>
      obtain ⟨place, hset⟩ := discard_eq_ok h
      exact setElement_reads hm hset

/-! ### Expressions -/

/-- The last part of an expression that writes. -/
theorem writeTarget_eq_ok {deeper : Evaluators} {source : String} {target : Arith.Target}
    {n result : Int}
    (h : (do deeper.writeCell m (← deeper.cell source target); return n : Eval Int) shell =
      (.ok result, shell')) :
    result = n ∧ ∃ cell between, deeper.cell source target shell = (.ok cell, between) ∧
      deeper.writeCell m cell between = (.ok (), shell') := by
  obtain ⟨cell, between, hcell, h⟩ := bind_eq_ok h
  obtain ⟨done, last, hwrite, h⟩ := bind_eq_ok h
  cases h
  exact ⟨rfl, cell, between, hcell, hwrite⟩

/-- **What an expression writes is in the range**, and is written at its end. -/
theorem written_eq_ok {deeper : Evaluators} (hdeeper : deeper.InRange) {source : String}
    {e : Arith.Expr} {n : Int} {target : Arith.Target}
    (h : deeper.expr source e shell = (.ok n, shell'))
    (hwritten : e.written? n = some (target, m)) :
    Fits m ∧ ∃ before cell between, deeper.cell source target before = (.ok cell, between) ∧
      deeper.writeCell m cell between = (.ok (), shell') := by
  have hn : Fits n := hdeeper.expr source e h
  cases e with
  | preStep op t =>
      cases hwritten
      unfold expr at h
      obtain ⟨c, between, -, h⟩ := bind_eq_ok h
      obtain ⟨old, before, -, h⟩ := bind_eq_ok h
      obtain ⟨rfl, hwrite⟩ := writeTarget_eq_ok h
      exact ⟨hn, before, hwrite⟩
  | postStep op t =>
      cases hwritten
      unfold expr at h
      obtain ⟨c, between, -, h⟩ := bind_eq_ok h
      obtain ⟨old, before, -, h⟩ := bind_eq_ok h
      obtain ⟨rfl, hwrite⟩ := writeTarget_eq_ok h
      exact ⟨op.fits n, before, hwrite⟩
  | assign op? t value =>
      cases hwritten
      unfold expr at h
      obtain ⟨right, between, -, h⟩ := bind_eq_ok h
      cases op? with
      | none =>
          obtain ⟨rfl, hwrite⟩ := writeTarget_eq_ok h
          exact ⟨hn, between, hwrite⟩
      | some op =>
          obtain ⟨c, between, -, h⟩ := bind_eq_ok h
          obtain ⟨old, between, -, h⟩ := bind_eq_ok h
          obtain ⟨result, before, -, h⟩ := bind_eq_ok h
          obtain ⟨rfl, hwrite⟩ := writeTarget_eq_ok h
          exact ⟨hn, before, hwrite⟩
  | _ => cases hwritten

end Evaluators

open Evaluators

/-- **Arithmetic is closed**: whatever the shell is, and whatever texts its variables hold, a text
or a tree that is evaluated gives an integer of the signed 64-bit range if it gives any.  Each
assignment and each step that is evaluated, on every nesting level, writes an integer of this range,
and its cell then holds the decimal text of this integer. -/
theorem evaluation_fits (levels : Nat) (shell shell' : Shell) (n : Int) :
    (∀ text, (evaluators levels).evaluate text shell = (.ok n, shell') → Fits n) ∧
      ∀ source e, (evaluators levels).expr source e shell = (.ok n, shell') →
        Fits n ∧ ∀ target m, e.written? n = some (target, m) →
          Fits m ∧ ∃ before cell between,
            (evaluators levels).cell source target before = (.ok cell, between) ∧
            (evaluators levels).writeCell m cell between = (.ok (), shell') ∧
            cell.text? shell' = (.ok (some (toString m)), shell') := by
  have hdeeper := evaluators_inRange levels
  refine ⟨fun text h => hdeeper.evaluate text h, fun source e h => ⟨hdeeper.expr source e h, ?_⟩⟩
  intro target m hwritten
  obtain ⟨hm, before, cell, between, hcell, hwrite⟩ := written_eq_ok hdeeper h hwritten
  exact ⟨hm, before, cell, between, hcell, hwrite, writeCell_reads hm hwrite⟩

/-- A constant beyond the range is subtracted from an unset variable that another one names. -/
theorem evaluation_fits_beyondRange :
    let shell (text : String) : Shell :=
      ⟨⟨[], ⟨"global", [], Table.empty.insert "n" ⟨.scalar text, .none, 0⟩⟩, .standard⟩,
        false, "script", 0⟩
    let e : Arith.Expr := .assign (some .sub) (.variable "n") (.number 9223372036854775808)
    (evaluators 2).expr "" e (shell "m") =
        (.ok (-9223372036854775808), shell "-9223372036854775808") ∧
      e.written? (-9223372036854775808) = some (.variable "n", -9223372036854775808) ∧
      Fits (-9223372036854775808) ∧
      ∃ before cell between, (evaluators 2).cell "" (.variable "n") before = (.ok cell, between) ∧
        (evaluators 2).writeCell (-9223372036854775808) cell between =
          (.ok (), shell "-9223372036854775808") := by
  intro shell e
  have hrun : (evaluators 2).expr "" e (shell "m") =
      (.ok (-9223372036854775808), shell "-9223372036854775808") := by
    show (_ : Except Fault Int × Shell) = _
    decide +kernel
  obtain ⟨hresult, hwrites⟩ := (evaluation_fits 2 _ _ _).2 "" e hrun
  obtain ⟨-, before, cell, between, hcell, hwrite, -⟩ := hwrites _ _ rfl
  exact ⟨hrun, rfl, hresult, before, cell, between, hcell, hwrite⟩

end ShellExpansion
