import ShellExpansion.Proofs.Eval.Exchange
import ShellExpansion.Proofs.Eval.Loosening
import ShellExpansion.Proofs.Eval.Refusal

/-! # Appending to numbers

A text that is appended to a variable with the integer attribute is added to the integer of the
variable.  The sum is made of two integers of the signed 64-bit range, but is not brought into the
range itself: it is the one that a compound assignment of an expression stores, with the same shell
afterwards, as long as it is in the range (`Evaluators.append_integer`), and is stored as it is
beyond (`Evaluators.append_overflows`). -/

namespace ShellExpansion

open Eval
open Arith (Fits wrap)

namespace Evaluators

variable {deeper : Evaluators} {name final text source : String} {key : Key} {n : Nat}
  {b : Binding} {elements : IndexedArray} {shell shell' : Shell}

/-! ### The integers that are added -/

/-- The integers that are added where a value is appended: that of the value, and that of the text
that it is appended to. -/
def addends (deeper : Evaluators) (value : String) (old : Option String) : Eval (Int × Int) := do
  let n ← deeper.integerOf value
  let m ← deeper.valueOf "" old
  return (n, m)

theorem stored_addends (deeper : Evaluators) (value : String) (old : Option String) :
    deeper.stored true value old = (do
      let sum ← deeper.addends value old
      return toString (sum.1 + sum.2)) := by
  simp only [stored_integer, addends, bind_assoc, pure_bind]

namespace Respect

variable {R : Shell → Shell → Prop} [IsPreorder Shell R] (h : deeper.Respect R)

include h

theorem integerOf (value : String) : Respects R (deeper.integerOf value) :=
  .ite (.pure 0) (h.evaluate value)

theorem addends (value : String) (old : Option String) : Respects R (deeper.addends value old) :=
  .bind (h.integerOf value) fun _ => .bind (h.valueOf "" old) fun _ => .pure _

end Respect

/-! ### Sources of expressions -/

/-- Under the guards of the shell itself no result is lost. -/
theorem eq_ok_of_lifts {α : Type} {first other : Eval α} {a : α}
    (h : Lifts shell.guards shell.guards (fun _ => False) first other)
    (hrun : first shell = (.ok a, shell')) : other shell = (.ok a, shell') := by
  obtain ⟨bare, rfl, hother | ⟨-, -, hlost⟩⟩ := h shell a shell' hrun
  · exact hother
  · exact hlost.elim

theorem withinUpTo_refl (guards : Guards) : Guards.WithinUpTo (fun _ => False) guards guards where
  nounset := id
  referenceDepth := le_refl _
  arithmeticDepth := le_refl _
  tooLong _ hlong hfits := absurd hlong (by omega)

/-- An expression that is given as a text has the same integer where it stands in another one. -/
theorem expr_of_expression {levels : Nat} {e : Arith.Expr} {m : Int}
    (h : (evaluators levels).expression source e shell = (.ok m, shell')) (other : String) :
    (evaluators levels).expr other e shell = (.ok m, shell') := by
  cases levels with
  | zero => cases h
  | succ levels =>
      have hlift := evaluators_lift (withinUpTo_refl shell.guards) (Nat.le_succ levels)
      exact eq_ok_of_lifts (hlift.expr source other e) h

theorem valueOf_of_source {levels : Nat} {old : Option String} {m : Int}
    (h : (evaluators levels).valueOf source old shell = (.ok m, shell')) (other : String) :
    (evaluators levels).valueOf other old shell = (.ok m, shell') :=
  eq_ok_of_lifts ((evaluators_lift (withinUpTo_refl shell.guards) (le_refl levels)).valueOf
    source other old) h

/-- What was added was evaluated first, and what it was added to behind it. -/
theorem addends_eq_ok {old : Option String} {x y : Int}
    (h : deeper.addends text old shell = (.ok (x, y), shell')) :
    ∃ between, deeper.integerOf text shell = (.ok x, between) ∧
      deeper.valueOf "" old between = (.ok y, shell') := by
  obtain ⟨n, between, hvalue, h⟩ := bind_eq_ok h
  obtain ⟨m, last, hold, h⟩ := bind_eq_ok h
  cases h
  exact ⟨between, hvalue, hold⟩

/-- A value that is not blank is evaluated in an expression as it is by itself. -/
theorem expr_group_of_integerOf {levels : Nat} {e : Arith.Expr} {x : Int}
    (h : (evaluators levels).integerOf text shell = (.ok x, shell'))
    (htext : Text.allBlank text = false) (hparse : Arith.parse text = .ok e) (source : String) :
    (evaluators levels).expr source (.group e) shell = (.ok x, shell') := by
  rw [integerOf, htext, if_neg Bool.false_ne_true, evaluate, hparse] at h
  rw [expr]
  exact expr_of_expression h source

/-- An addition to a cell in an expression: the value is evaluated, then the cell is read and
written. -/
theorem expr_add {e : Arith.Expr} {target : Arith.Target} {cell : Cell} {old : Option String}
    {x y : Int} {between last after : Shell}
    (hvalue : deeper.expr source e shell = (.ok x, between))
    (hcell : deeper.cell source target between = (.ok cell, between))
    (hget : cell.text? between = (.ok old, between))
    (hold : deeper.valueOf source old between = (.ok y, last))
    (hcell' : deeper.cell source target last = (.ok cell, last))
    (hwrite : deeper.writeCell (wrap (x + y)) cell last = (.ok (), after)) :
    deeper.expr source (.assign (some .add) target e) shell = (.ok (wrap (x + y)), after) := by
  have hread : deeper.readCell source cell between = (.ok y, last) := by
    rw [readCell_eq, bind_run_of_ok hget, hold]
  have hsum : operate source .add y x = pure (wrap (x + y)) := by
    rw [Int.add_comm]
    rfl
  rw [expr, bind_run_of_ok hvalue]
  dsimp only
  rw [bind_run_of_ok hcell, bind_run_of_ok hread, hsum, pure_bind, bind_run_of_ok hcell',
    bind_run_of_ok hwrite]
  rfl

/-! ### Sums that cells take -/

/-- The compound assignment of an expression to a target, whose cell it is, adds the value of the
text alike: it gives the sum that is brought into the range, the cell holds its decimal text then,
and the second shell is left if the sum is in the range as it is. -/
def AddsAlike (deeper : Evaluators) (target : Arith.Target) (cell : Cell) (text : String)
    (sum : Int) (shell shell' : Shell) : Prop :=
  ∀ source e, Text.allBlank text = false → Arith.parse text = .ok e →
    ∃ after, deeper.expr source (.assign (some .add) target (.group e)) shell =
        (.ok (wrap sum), after) ∧
      cell.text? after = (.ok (some (toString (wrap sum))), after) ∧
      (Fits sum → after = shell')

/-- An expression adds alike to a cell that holds the text that was appended to, if the cell takes
every integer behind the two evaluations. -/
theorem addsAlike_of_addends {levels : Nat} {target : Arith.Target} {cell : Cell}
    {old : Option String} {x y : Int} {last : Shell}
    (hsum : (evaluators levels).addends text old shell = (.ok (x, y), last))
    (hcell : ∀ source after, shell.Writes .nearest after →
      (evaluators levels).cell source target after = (.ok cell, after))
    (hget : ∀ between, (evaluators levels).integerOf text shell = (.ok x, between) →
      cell.text? between = (.ok old, between))
    (htakes : Text.allBlank text = false → ∀ m, Fits m → ∃ after,
      (evaluators levels).writeCell m cell last = (.ok (), after) ∧ (m = x + y → after = shell')) :
    (evaluators levels).AddsAlike target cell text (x + y) shell shell' := by
  intro source e htext hparse
  have hwrites := evaluators_onlyWrite levels
  obtain ⟨between, hx, hy⟩ := addends_eq_ok hsum
  have hbetween : shell.Writes .nearest between := (hwrites.integerOf text).of_run hx
  have hlast : shell.Writes .nearest last := (hwrites.addends text old).of_run hsum
  have hfits : Fits (wrap (x + y)) := Arith.fits_wrap _
  obtain ⟨after, hwrite, hsame⟩ := htakes htext _ hfits
  have hvalue := expr_group_of_integerOf hx htext hparse source
  exact ⟨after, expr_add hvalue (hcell source between hbetween) (hget between hx)
    (valueOf_of_source hy source) (hcell source last hlast) hwrite, writeCell_reads hfits hwrite,
    fun hfits => hsame (Arith.wrap_of_fits hfits)⟩

/-! ### Variables -/

/-- An assignment to a bound variable with the integer attribute works out its text first. -/
theorem assign_integer (hname : isIdentifier name = true)
    (hliteral : ArrayLiteral.isLiteral text = false)
    (hresolve : shell.store.resolve name = .ok (final, some b))
    (hvalue : b.value.isReference = false) (hinteger : b.attributes.integer = true)
    (hreadonly : b.attributes.readonly = false) (append : Bool) :
    deeper.assign name text .nearest append shell = (do
      let text ← deeper.stored true text (if append then b.value.scalar? else none)
      change (·.assign name text .nearest false)) shell := by
  have hat : shell.store.at? ⟨.nearest, final⟩ = some b := (Store.resolve_spec hresolve).2.symm
  have hprepare := Store.prepare_eq_of_resolve hresolve hreadonly
  unfold assign
  rw [splitSubscript_of_isIdentifier hname]
  dsimp only
  rw [if_neg (by rw [hliteral]; decide), bind_run_of_ok (change_run_of_ok hprepare),
    store_bind_run]
  dsimp only
  rw [Store.get_of_at? hat, if_neg (by rw [hvalue]; decide), if_pos hinteger]

/-- What is assigned to is not read-only. -/
theorem readonly_of_assign {place : Store.Place}
    (hname : isIdentifier name = true) (hliteral : ArrayLiteral.isLiteral text = false)
    (hresolve : shell.store.resolve name = .ok (final, some b))
    (h : deeper.assign name text .nearest true shell = (.ok place, shell')) :
    b.attributes.readonly = false := by
  unfold assign at h
  rw [splitSubscript_of_isIdentifier hname] at h
  dsimp only at h
  rw [if_neg (by rw [hliteral]; decide)] at h
  obtain ⟨place', between, hprepare, -⟩ := bind_eq_ok h
  obtain ⟨prepared, hprepared, -⟩ := change_eq_ok hprepare
  exact (Store.prepare_of_resolve_some hresolve hprepared).2.2

theorem append_variable {levels : Nat} {place : Store.Place}
    (hname : isIdentifier name = true) (hliteral : ArrayLiteral.isLiteral text = false)
    (hresolve : shell.store.resolve name = .ok (final, some b))
    (hvalue : b.value.isReference = false) (hinteger : b.attributes.integer = true)
    (hunchanged : ∀ x between, (evaluators levels).integerOf text shell = (.ok x, between) →
      between.store.get? name = shell.store.get? name)
    (h : (evaluators levels).assign name text .nearest true shell = (.ok place, shell')) :
    ∃ x y last, (evaluators levels).addends text b.value.scalar? shell = (.ok (x, y), last) ∧
      shell'.store.get? name = .ok (some (toString (x + y))) ∧
      (evaluators levels).AddsAlike (.variable name) (.variable name) text (x + y)
        shell shell' := by
  rw [assign_integer hname hliteral hresolve hvalue hinteger
    (readonly_of_assign hname hliteral hresolve h), if_pos rfl, stored_addends, bind_assoc] at h
  obtain ⟨⟨x, y⟩, last, hsum, h⟩ := bind_eq_ok h
  rw [pure_bind] at h
  obtain ⟨store, hassign, rfl⟩ := change_eq_ok h
  -- Whatever the two evaluations wrote, the name leads to the same variable.
  have hwrites : shell.Writes .nearest last :=
    ((evaluators_onlyWrite levels).addends text b.value.scalar?).of_run hsum
  obtain ⟨b', hresolve', hrewritten⟩ := hwrites.store.resolve hresolve hvalue
  have hvalue' : b'.value.isReference = false := by rw [hrewritten.value.isReference, hvalue]
  refine ⟨x, y, last, hsum, Store.get?_of_assign hresolve' (by rintro _ ⟨⟩; exact hvalue') hassign,
    addsAlike_of_addends hsum (fun _ _ _ => rfl) (fun between hx => ?_) fun _ m _ => ?_⟩
  · exact query_run_of_ok ((hunchanged x between hx).trans (Store.get?_of_resolve hresolve))
  · obtain ⟨s, hassign'⟩ := Store.exists_assign hresolve' hvalue' hassign (toString m)
    refine ⟨{ last with store := s }, ?_, fun hm => ?_⟩
    · rw [writeCell, discard_run, change_run, hassign']
    · rw [hm, hassign] at hassign'
      cases hassign'
      rfl

/-! ### Elements -/

/-- An element of an indexed array that is bound is worked out and put into it. -/
theorem setElement_indexed (hresolve : shell.store.resolve name = .ok (final, some b))
    (hvalue : b.value = .indexed elements) (hreadonly : b.attributes.readonly = false)
    (hindex : key.toIndex = .ok (.ofNat n)) (value : String) (append : Bool) :
    deeper.setElement name key value append .nearest shell = (do
      let text ← deeper.stored b.attributes.integer value (if append then elements.get? n else none)
      putElement ⟨.nearest, final⟩ b (·.insertIndex n text)
      return ⟨.nearest, final⟩ : Eval Store.Place) shell := by
  have hat : shell.store.at? ⟨.nearest, final⟩ = some b := (Store.resolve_spec hresolve).2.symm
  have hkind : b.value.kind? = some .indexed := by
    rw [hvalue]
    rfl
  have hopened : { shell with
      store := shell.store.putValue ⟨.nearest, final⟩ (.indexed elements) } = shell := by
    have hopened := (opened_eq hat (.inr hkind)).trans (opened_of_array hkind shell _)
    rwa [hvalue] at hopened
  have hprepare := Store.prepare_eq_of_resolve hresolve hreadonly
  unfold setElement
  rw [bind_run_of_ok (change_run_of_ok hprepare), store_bind_run, Store.get_of_at? hat, hvalue]
  dsimp only
  rw [bind_run_of_ok (indexOf_run_of_ok hindex)]
  dsimp only
  rw [store_bind_run]
  show (do
    let text ← deeper.stored b.attributes.integer value (if append then elements.get? n else none)
    putElement ⟨.nearest, final⟩ b (·.insertIndex n text)
    return ⟨.nearest, final⟩ : Eval Store.Place)
      { shell with store := shell.store.putValue ⟨.nearest, final⟩ (.indexed elements) } = _
  rw [hopened]

/-- The element is put into the array unless the array was replaced. -/
theorem putElement_indexed {begun : Binding}
    (hresolve : shell.store.resolve name = .ok (final, some b))
    (hvalue : b.value = .indexed elements) (hgeneration : b.generation = begun.generation)
    (n : Nat) (text : String) :
    putElement ⟨.nearest, final⟩ begun (·.insertIndex n text) shell = (.ok (), { shell with
      store := shell.store.put ⟨.nearest, final⟩
        (b.withValue (.indexed (elements.insert n text))) }) := by
  have hget : shell.store.get ⟨.nearest, final⟩ = b :=
    Store.get_of_at? (Store.resolve_spec hresolve).2.symm
  rw [putElement_run (by rw [hget, hgeneration]), Store.putValue, hget, hvalue]
  rfl

/-- A cell of an indexed array takes every integer of the range. -/
theorem writeCell_indexed {levels : Nat} {m : Int} (hm : Fits m)
    (hresolve : shell.store.resolve name = .ok (final, some b))
    (hvalue : b.value = .indexed elements) (hreadonly : b.attributes.readonly = false) (n : Nat) :
    (evaluators (levels + 1)).writeCell m (.element name (.index n)) shell =
      (.ok (), { shell with
        store := shell.store.put ⟨.nearest, final⟩
          (b.withValue (.indexed (elements.insert n (toString m)))) }) := by
  rw [writeCell, discard_run, setElement_indexed hresolve hvalue hreadonly rfl,
    if_neg Bool.false_ne_true, stored_decimal hm, pure_bind,
    bind_run_of_ok (putElement_indexed hresolve hvalue rfl n _)]
  rfl

/-- An element that was put into an array reads as its text. -/
theorem getElement?_put {found : Option Binding}
    (hresolve : shell.store.resolve name = .ok (final, found))
    (hindex : key.toIndex = .ok (.ofNat n)) (b : Binding) (elements : IndexedArray)
    (text : String) :
    let after : Shell := { shell with
      store := shell.store.put ⟨.nearest, final⟩ (b.withValue (.indexed (elements.insert n text))) }
    getElement? name key after = (.ok (some text), after) := by
  intro after
  rw [getElement?_indexed (binding?_put rfl hresolve) rfl hindex, IndexedArray.getFromEnd?_insert]

theorem append_element {levels : Nat} {place : Store.Place}
    (hresolve : shell.store.resolve name = .ok (final, some b))
    (hvalue : b.value = .indexed elements) (hinteger : b.attributes.integer = true)
    (hindex : key.toIndex = .ok (.ofNat n))
    (hunchanged : ∀ x between, (evaluators levels).integerOf text shell = (.ok x, between) →
      getElement? name key between = (.ok (elements.get? n), between))
    (hkept : ∀ sum last, (evaluators levels).addends text (elements.get? n) shell =
      (.ok sum, last) → ∀ b', last.store.binding? name = .ok (some b') →
        b'.generation = b.generation)
    (h : (evaluators levels).setElement name key text true .nearest shell =
      (.ok place, shell')) :
    ∃ x y last, (evaluators levels).addends text (elements.get? n) shell = (.ok (x, y), last) ∧
      getElement? name key shell' = (.ok (some (toString (x + y))), shell') ∧
      ∀ index subscript,
        (∀ source, (evaluators levels).expr source index = pure (n : Int)) →
        (evaluators levels).AddsAlike (.element name index subscript) (.element name (.index n))
          text (x + y) shell shell' := by
  have hreadonly : b.attributes.readonly = false := by
    obtain ⟨place', between, hprepare, -⟩ := bind_eq_ok h
    obtain ⟨prepared, hprepared, -⟩ := change_eq_ok hprepare
    exact (Store.prepare_of_resolve_some hresolve hprepared).2.2
  have hkind : b.value.kind? = some .indexed := by
    rw [hvalue]
    rfl
  have harray : shell.store.LeadsToIndexed name :=
    ⟨final, some b, hresolve, by rintro _ ⟨⟩; exact .inr hkind⟩
  rw [setElement_indexed hresolve hvalue hreadonly hindex, hinteger, if_pos rfl, stored_addends,
    bind_assoc] at h
  obtain ⟨⟨x, y⟩, last, hsum, h⟩ := bind_eq_ok h
  rw [pure_bind] at h
  -- Whatever the two evaluations wrote, the name leads to the same array, which is still indexed.
  have hwrites : shell.Writes .nearest last :=
    ((evaluators_onlyWrite levels).addends text (elements.get? n)).of_run hsum
  obtain ⟨b', elements', hresolve', hattributes, hvalue'⟩ :=
    hwrites.store.resolve_indexed hresolve hkind
  have hgeneration : b'.generation = b.generation :=
    hkept _ last hsum b' (Store.binding?_of_resolve hresolve')
  rw [bind_run_of_ok (putElement_indexed hresolve' hvalue' hgeneration n _)] at h
  cases h
  refine ⟨x, y, last, hsum, getElement?_put hresolve' hindex b' elements' _,
    fun index subscript hconstant => addsAlike_of_addends hsum (fun source after hafter => ?_)
      (fun between hx => ?_) fun htext m hm => ?_⟩
  · rw [cell_indexed (harray.after hafter.store), hconstant]
    rfl
  · have hbetween : shell.Writes .nearest between :=
      ((evaluators_onlyWrite levels).integerOf text).of_run hx
    obtain ⟨b'', elements'', hresolve'', -, hvalue''⟩ :=
      hbetween.store.resolve_indexed hresolve hkind
    have hbinding := Store.binding?_of_resolve hresolve''
    rw [← hunchanged x between hx, getElement?_indexed hbinding hvalue'' hindex]
    exact getElement?_indexed hbinding hvalue'' rfl
  · cases levels with
    | zero =>
        obtain ⟨between, hx, -⟩ := addends_eq_ok hsum
        rw [integerOf, htext, if_neg Bool.false_ne_true] at hx
        exact absurd hx evaluate_exhausted
    | succ levels =>
        refine ⟨_, writeCell_indexed hm hresolve' hvalue' (by rw [hattributes, hreadonly]) n, ?_⟩
        rintro rfl
        rfl

/-! ### Sums -/

/-- What is added are integers of the range. -/
theorem addends_fit {levels : Nat} {old : Option String} {x y : Int}
    (h : (evaluators levels).addends text old shell = (.ok (x, y), shell')) : Fits x ∧ Fits y := by
  obtain ⟨between, hx, hy⟩ := addends_eq_ok h
  have hrange := evaluators_inRange levels
  have hvalue : Yields Fits ((evaluators levels).integerOf text) :=
    .ite (.pure (by decide)) (hrange.evaluate text)
  exact ⟨hvalue hx, hrange.valueOf "" old hy⟩

/-- **Appending to an integer adds.**  Let a name lead to a variable with the integer attribute.  A
text that is appended to it, and whose evaluation leaves what the variable reads as, is evaluated
first, and then the text of the variable: the variable then reads as the sum of the two integers,
each of which is in the signed 64-bit range.  So does an element of an indexed array that a text is
appended to, unless the array is replaced meanwhile.  Where the text is no blank one, the compound
assignment of an expression adds alike: with the sum that is brought into the range, and with the
same shell afterwards if the sum is in the range as it is. -/
theorem append_integer {levels : Nat}
    (hresolve : shell.store.resolve name = .ok (final, some b))
    (hinteger : b.attributes.integer = true) :
    (isIdentifier name = true → ArrayLiteral.isLiteral text = false →
      b.value.isReference = false →
      (∀ x between, (evaluators levels).integerOf text shell = (.ok x, between) →
        between.store.get? name = shell.store.get? name) →
      ∀ place, (evaluators levels).assign name text .nearest true shell = (.ok place, shell') →
        ∃ x y last, Fits x ∧ Fits y ∧
          (evaluators levels).addends text b.value.scalar? shell = (.ok (x, y), last) ∧
          shell'.store.get? name = .ok (some (toString (x + y))) ∧
          (evaluators levels).AddsAlike (.variable name) (.variable name) text (x + y)
            shell shell') ∧
      ∀ elements key (n : Nat), b.value = .indexed elements → key.toIndex = .ok (.ofNat n) →
        (∀ x between, (evaluators levels).integerOf text shell = (.ok x, between) →
          getElement? name key between = (.ok (elements.get? n), between)) →
        (∀ sum last, (evaluators levels).addends text (elements.get? n) shell =
          (.ok sum, last) → ∀ b', last.store.binding? name = .ok (some b') →
            b'.generation = b.generation) →
        ∀ place, (evaluators levels).setElement name key text true .nearest shell =
            (.ok place, shell') →
          ∃ x y last, Fits x ∧ Fits y ∧
            (evaluators levels).addends text (elements.get? n) shell = (.ok (x, y), last) ∧
            getElement? name key shell' = (.ok (some (toString (x + y))), shell') ∧
            ∀ index subscript,
              (∀ source, (evaluators levels).expr source index = pure (n : Int)) →
              (evaluators levels).AddsAlike (.element name index subscript)
                (.element name (.index n)) text (x + y) shell shell' := by
  constructor
  · intro hname hliteral hvalue hunchanged place h
    obtain ⟨x, y, last, hsum, hreads, hadds⟩ :=
      append_variable hname hliteral hresolve hvalue hinteger hunchanged h
    obtain ⟨hx, hy⟩ := addends_fit hsum
    exact ⟨x, y, last, hx, hy, hsum, hreads, hadds⟩
  · intro elements key n hvalue hindex hunchanged hkept place h
    obtain ⟨x, y, last, hsum, hreads, hadds⟩ :=
      append_element hresolve hvalue hinteger hindex hunchanged hkept h
    obtain ⟨hx, hy⟩ := addends_fit hsum
    exact ⟨x, y, last, hx, hy, hsum, hreads, hadds⟩

/-- An assignment to another variable is appended to an array, and to the element that the array
reads as. -/
theorem append_integer_assignment :
    let array (text : String) : Binding :=
      ⟨.indexed (IndexedArray.singleton text), ⟨true, false, false⟩, 0⟩
    let shell (bindings : Table Binding) : Shell :=
      ⟨⟨[], ⟨"global", [], bindings⟩, .standard⟩, false, "script", 0⟩
    let before := shell (Table.empty.insert "a" (array "5"))
    let after := shell ((Table.empty.insert "a" (array "7")).insert "b" ⟨.scalar "2", .none, 0⟩)
    (evaluators 2).assign "a" "b = 2" .nearest true before = (.ok ⟨.nearest, "a"⟩, after) ∧
      (evaluators 2).AddsAlike (.variable "a") (.variable "a") "b = 2" 7 before after ∧
      (evaluators 2).setElement "a" (.index 0) "b = 2" true .nearest before =
        (.ok ⟨.nearest, "a"⟩, after) ∧
      (evaluators 2).AddsAlike (.element "a" (.number 0) "0") (.element "a" (.index 0)) "b = 2" 7
        before after := by
  intro array shell before after
  let b := array "5"
  let between := shell ((Table.empty.insert "a" b).insert "b" ⟨.scalar "2", .none, 0⟩)
  have hresolve : before.store.resolve "a" = .ok ("a", some b) := by decide
  have hscalar : b.value.scalar? = some "5" := rfl
  have helement : (IndexedArray.singleton "5").get? 0 = some "5" := rfl
  have hparse : Arith.parse "b = 2" = .ok (.assign none (.variable "b") (.number 2)) := by
    let whole : Arith.Expr := .assign none (.variable "b") (.number 2)
    have hname : Arith.IsName "b" := ⟨'b', [], by decide, by decide, fun d hd => by cases hd⟩
    have hlayered : whole.Layered := by
      simp only [whole, Arith.Expr.Layered, Arith.Target.Layered, Arith.Expr.layer]
      decide
    have htwo : (0 : Int) ≤ 2 := by decide
    have hprint : whole.print = "b = 2" := by decide +kernel
    rw [← hprint]
    exact Arith.parseNested_print _ whole hlayered ⟨hname, htwo⟩ (by decide) (Nat.lt_succ_self _)
  have hvalue : (evaluators 2).integerOf "b = 2" before = (.ok 2, between) := by
    simp only [integerOf, evaluate, hparse]
    show (_ : Except Fault Int × Shell) = _
    decide +kernel
  have hsum : (evaluators 2).addends "b = 2" (some "5") before = (.ok (2, 5), between) := by
    have hold : (evaluators 2).valueOf "" (some "5") = pure 5 :=
      valueOf_decimal (m := 5) (by decide) _ ""
    rw [addends, bind_run_of_ok hvalue, hold]
    rfl
  have hassign : (evaluators 2).assign "a" "b = 2" .nearest true before =
      (.ok ⟨.nearest, "a"⟩, after) := by
    rw [assign_integer (by decide) (by decide) hresolve rfl rfl rfl, if_pos rfl, stored_addends,
      bind_assoc, hscalar, bind_run_of_ok hsum]
    rfl
  have hset : (evaluators 2).setElement "a" (.index 0) "b = 2" true .nearest before =
      (.ok ⟨.nearest, "a"⟩, after) := by
    rw [setElement_indexed hresolve rfl rfl rfl, if_pos rfl, stored_addends, bind_assoc, helement,
      bind_run_of_ok hsum]
    rfl
  have hresult := @append_integer _ _ "b = 2" _ _ after 2 hresolve rfl
  refine ⟨hassign, ?_, hset, ?_⟩
  · obtain ⟨x, y, last, -, -, hsum', -, hadds⟩ := hresult.1 (by decide) (by decide) rfl
      (fun x between' hx => by
        rw [hvalue] at hx
        cases hx
        decide) _ hassign
    rw [hscalar, hsum] at hsum'
    cases hsum'
    exact hadds
  · obtain ⟨x, y, last, -, -, hsum', -, hadds⟩ := hresult.2 _ (.index 0) 0 rfl rfl
      (fun x between' hx => by
        rw [hvalue] at hx
        cases hx
        rfl)
      (fun sum last hsum' b' hb' => by
        rw [helement, hsum] at hsum'
        cases hsum'
        cases hb'
        rfl) _ hset
    rw [helement, hsum] at hsum'
    cases hsum'
    exact hadds (.number 0) "0" fun source => by
      rw [expr]
      rfl

/-- **Appending goes beyond the range**: one is appended to the largest integer, of a variable and
of an element, and the sum is stored as it is, where an expression stores the smallest integer. -/
theorem append_overflows :
    let integer (value : Value) : Binding := ⟨value, ⟨true, false, false⟩, 0⟩
    let shell (name : String) (value : Value) : Shell :=
      ⟨⟨[], ⟨"global", [], Table.empty.insert name (integer value)⟩, .standard⟩, false, "script", 0⟩
    let number (text : String) := shell "n" (.scalar text)
    let array (text : String) := shell "a" (.indexed (IndexedArray.singleton text))
    (evaluators 2).assign "n" "1" .nearest true (number "9223372036854775807") =
        (.ok ⟨.nearest, "n"⟩, number "9223372036854775808") ∧
      (evaluators 2).expr "" (.assign (some .add) (.variable "n") (.group (.number 1)))
          (number "9223372036854775807") =
        (.ok (-9223372036854775808), number "-9223372036854775808") ∧
      (evaluators 2).setElement "a" (.index 0) "1" true .nearest (array "9223372036854775807") =
        (.ok ⟨.nearest, "a"⟩, array "9223372036854775808") ∧
      (evaluators 2).expr "" (.assign (some .add) (.element "a" (.number 0) "0")
          (.group (.number 1))) (array "9223372036854775807") =
        (.ok (-9223372036854775808), array "-9223372036854775808") := by
  intro integer shell number array
  let largest : Int := 9223372036854775807
  have hold (before : Shell) : (evaluators 2).valueOf "" (some "9223372036854775807") before =
      (.ok largest, before) := by
    have hlargest : (evaluators 2).valueOf "" (some (toString largest)) = pure largest :=
      valueOf_decimal (by decide) _ ""
    exact congrFun hlargest before
  have hsum (before : Shell) : (evaluators 2).addends "1" (some "9223372036854775807") before =
      (.ok (1, largest), before) := by
    have hone : (evaluators 2).integerOf "1" = pure 1 := by
      rw [integerOf, if_neg (by decide)]
      exact evaluate_decimal (m := 1) (by decide) 1
    rw [addends, hone, pure_bind, bind_run_of_ok (hold before)]
    rfl
  have hvalue (before : Shell) :
      (evaluators 2).expr "" (.group (.number 1)) before = (.ok 1, before) := by
    rw [expr, expr]
    rfl
  let scalar := integer (.scalar "9223372036854775807")
  let indexed := integer (.indexed (IndexedArray.singleton "9223372036854775807"))
  have hnumber : (number "9223372036854775807").store.resolve "n" = .ok ("n", some scalar) := by
    decide
  have harray : (array "9223372036854775807").store.resolve "a" = .ok ("a", some indexed) := by
    decide
  have hscalar : scalar.value.scalar? = some "9223372036854775807" := rfl
  have helement : (IndexedArray.singleton "9223372036854775807").get? 0 =
      some "9223372036854775807" := rfl
  refine ⟨?_, ?_, ?_, ?_⟩
  · rw [assign_integer (by decide) (by decide) hnumber rfl rfl rfl, if_pos rfl, stored_addends,
      bind_assoc, hscalar, bind_run_of_ok (hsum _)]
    rfl
  · have hget : (Cell.variable "n").text? (number "9223372036854775807") =
        (.ok (some "9223372036854775807"), number "9223372036854775807") := rfl
    exact expr_add (hvalue _) rfl hget (hold _) rfl rfl
  · rw [setElement_indexed harray rfl rfl rfl, if_pos rfl, stored_addends, bind_assoc, helement,
      bind_run_of_ok (hsum _)]
    rfl
  · have hcell : (evaluators 2).cell "" (.element "a" (.number 0) "0")
        (array "9223372036854775807") =
          (.ok (.element "a" (.index 0)), array "9223372036854775807") := by
      rw [cell, expr]
      rfl
    have hget : (Cell.element "a" (.index 0)).text? (array "9223372036854775807") =
        (.ok (some "9223372036854775807"), array "9223372036854775807") := rfl
    exact expr_add (hvalue _) hcell hget (hold _) hcell
      (writeCell_indexed (Arith.fits_wrap _) harray rfl rfl 0)

end Evaluators

end ShellExpansion
