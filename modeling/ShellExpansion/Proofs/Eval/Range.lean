import ShellExpansion.Eval.Word
import ShellExpansion.Proofs.Arith.Range
import ShellExpansion.Proofs.Eval.Running

/-! # Evaluations stay in the range

Every expression that is evaluated gives an integer of the signed 64-bit range: constants are
wrapped, operators stay in the range, and what a variable or an expansion stands for is a wrapped
constant or the value of another expression.  By induction on the nesting levels this holds of all
evaluators (`evaluators_inRange`). -/

namespace ShellExpansion

open Arith (Fits)

namespace Eval

variable {α β : Type} {p : α → Prop} {q : β → Prop}

/-- What the evaluation gives, if it gives anything, satisfies the predicate. -/
def Yields (p : α → Prop) (action : Eval α) : Prop :=
  ∀ ⦃shell a shell'⦄, action shell = (.ok a, shell') → p a

namespace Yields

theorem pure {a : α} (h : p a) : Yields p (Pure.pure a) := by
  intro shell a' shell' hrun
  cases hrun
  exact h

theorem throw (fault : Fault) : Yields p (MonadExcept.throw fault) := by
  intro shell a shell' hrun
  cases hrun

theorem refuse (e : Error) : Yields p (Eval.refuse e) := throw (.error e)

theorem bind {x : Eval β} {rest : β → Eval α} (hx : Yields q x)
    (hrest : ∀ b, q b → Yields p (rest b)) : Yields p (x >>= rest) := by
  intro shell a shell' hrun
  obtain ⟨b, between, hfirst, hsecond⟩ := bind_eq_ok hrun
  exact hrest b (hx hfirst) hsecond

/-- The second part yields what it does whatever the first one gives. -/
theorem behind {x : Eval β} {rest : β → Eval α} (hrest : ∀ b, Yields p (rest b)) :
    Yields p (x >>= rest) :=
  have hany : Yields (fun _ => True) x := fun _ _ _ _ => trivial
  bind hany fun b _ => hrest b

theorem ite {c : Prop} [Decidable c] {x y : Eval α} (hx : Yields p x) (hy : Yields p y) :
    Yields p (if c then x else y) := by
  split
  · exact hx
  · exact hy

theorem oneDeeper {action : Eval α} (h : Yields p action) : Yields p (Eval.oneDeeper action) := by
  intro shell a shell' hrun
  obtain ⟨hresult, -⟩ := Prod.mk.inj hrun
  exact h (Prod.ext hresult rfl)

end Yields

end Eval

namespace Evaluators

open Eval

/-- The expressions on the next nesting level give integers of the range. -/
def InRange (deeper : Evaluators) : Prop :=
  ∀ source e, Yields Fits (deeper.expression source e)

theorem operate_fits (source : String) (op : Arith.BinaryOp) {left right : Int}
    (hleft : Fits left) (hright : Fits right) : Yields Fits (operate source op left right) := by
  unfold operate
  cases h : op.apply left right with
  | ok n => exact .pure (op.fits hleft hright h)
  | error problem => exact .refuse _

namespace InRange

variable {deeper : Evaluators} (h : deeper.InRange)

include h

theorem evaluate (text : String) : Yields Fits (deeper.evaluate text) := by
  unfold Evaluators.evaluate
  cases Arith.parse text with
  | ok e => exact h text e
  | error fault => exact .throw fault

/-- **What a text stands for is in the range.** -/
theorem valueOf (source : String) (value : Option String) :
    Yields Fits (deeper.valueOf source value) := by
  have hzero : Fits 0 := by decide
  unfold Evaluators.valueOf
  cases value with
  | none => exact .pure hzero
  | some text =>
      refine .ite (.pure hzero) ?_
      dsimp only
      split
      · split
        · exact .pure (Arith.fits_wrap _)
        · exact .throw _
      · refine .oneDeeper (.behind fun limits => .behind fun shell => .ite (.refuse _) ?_)
        split
        · exact h _ _
        · exact .pure hzero
        · exact .throw _

theorem readCell (source : String) (cell : Cell) : Yields Fits (deeper.readCell source cell) := by
  match cell with
  | .variable name => exact .behind fun value => h.valueOf source value
  | .element array key => exact .behind fun value => h.valueOf source value

/-- The value of a target, whose subscript is evaluated first. -/
theorem readTarget (source : String) (target : Arith.Target) :
    Yields Fits (do deeper.readCell source (← deeper.cell source target)) :=
  .behind fun cell => h.readCell source cell

/-- **Every expression gives an integer of the range.** -/
theorem expr (source : String) (e : Arith.Expr) : Yields Fits (deeper.expr source e) := by
  cases e with
  | number n => exact .pure (Arith.fits_wrap n)
  | read t => exact h.readTarget source t
  | parameter text =>
      unfold Evaluators.expr
      cases arithmeticText? text with
      | some inside => exact h.evaluate inside
      | none => exact .behind fun value => h.valueOf source _
  | group inner => exact expr source inner
  | binary op left right =>
      unfold Evaluators.expr
      refine .bind (expr source left) fun l hl => ?_
      have hoperate (op : Arith.BinaryOp) :
          Yields Fits (do operate source op l (← deeper.expr source right)) :=
        .bind (expr source right) fun r hr => operate_fits source op hl hr
      cases op with
      | and => exact .ite (.pure (by decide)) (hoperate .and)
      | or => exact .ite (.pure (by decide)) (hoperate .or)
      | _ => exact hoperate _
  | unary op operand => exact .bind (expr source operand) fun n hn => .pure (op.fits hn)
  | preStep op t =>
      exact .behind fun _ => .behind fun old => .behind fun _ => .behind fun _ =>
        .pure (op.fits old)
  | postStep op t =>
      exact .behind fun c => .bind (h.readCell source c) fun old hold =>
        .behind fun _ => .behind fun _ => .pure hold
  | ternary condition consequent alternate =>
      exact .behind fun _ => .ite (expr source consequent) (expr source alternate)
  | assign op? t value =>
      unfold Evaluators.expr
      refine .bind (expr source value) fun n hn => ?_
      have hwrite {n : Int} (hn : Fits n) :
          Yields Fits (do deeper.writeCell n (← deeper.cell source t); return n) :=
        .behind fun _ => .behind fun _ => .pure hn
      cases op? with
      | none => exact hwrite hn
      | some op =>
          exact .behind fun c => .bind (h.readCell source c) fun old hold =>
            .bind (operate_fits source op hold hn) fun n hn => hwrite hn

end InRange

end Evaluators

/-- **All evaluators stay in the range**, on every nesting level. -/
theorem evaluators_inRange : ∀ levels, (evaluators levels).InRange
  | 0 => fun _ _ => .throw _
  | levels + 1 => fun source e => (evaluators_inRange levels).expr source e

end ShellExpansion
