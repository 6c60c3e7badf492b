import ShellExpansion.Eval.Element

/-! # Evaluating expressions

`Evaluators.expr` is the value of an arithmetic expression. Operands are evaluated from left to
right, the right operand of `&&` and `||` only if it matters, and the value of an assignment
before its target. The subscript of an element is evaluated each time the element is read or
written. -/

namespace ShellExpansion

/-- What a target stands for once its subscript is evaluated. -/
inductive Cell
  | variable (name : String)
  | element (array : String) (key : Key)
deriving DecidableEq, Repr

namespace Evaluators

open Eval

/-- The integer that a cell holds. -/
def readCell (deeper : Evaluators) (source : String) : Cell → Eval Int
  | .variable name => do deeper.valueOf source (← query (·.get? name))
  | .element array key => do deeper.valueOf source (← getElement? array key)

/-- Writes an integer to a cell. -/
def writeCell (deeper : Evaluators) (n : Int) : Cell → Eval Unit
  | .variable name => discard (change (·.assign name (toString n) .nearest false))
  | .element array key =>
    discard (deeper.setElement array key (toString n) false .nearest)

/-- The value of an operator, with errors that show the source. -/
def operate (source : String) (op : Arith.BinaryOp) (left right : Int) : Eval Int :=
  match op.apply left right with
  | .ok n => return n
  | .error problem => refuse (.arithmetic source problem)

/-- The text between `$((` and `))`, if the parameter is written so. -/
def arithmeticText? (parameter : String) : Option String :=
  match parameter.toList with
  | '$' :: '(' :: '(' :: rest =>
    match rest.reverse with
    | ')' :: ')' :: body => some (String.ofList body.reverse)
    | _ => none
  | _ => none

mutual

/-- The value of an expression. -/
def expr (deeper : Evaluators) (source : String) : Arith.Expr → Eval Int
  | .number n => return Arith.wrap n
  | .read t => do deeper.readCell source (← deeper.cell source t)
  | .parameter text => do
    match arithmeticText? text with
    | some inside => deeper.evaluate inside
    | none => deeper.valueOf source (some (← deeper.word .text text))
  | .group inner => deeper.expr source inner
  | .binary op left right => do
    let l ← deeper.expr source left
    match op with
    | .and => if l = 0 then return 0 else operate source .and l (← deeper.expr source right)
    | .or => if l ≠ 0 then return 1 else operate source .or l (← deeper.expr source right)
    | op => operate source op l (← deeper.expr source right)
  | .unary op operand => return op.apply (← deeper.expr source operand)
  | .preStep op t => do
    let old ← deeper.readCell source (← deeper.cell source t)
    deeper.writeCell (op.apply old) (← deeper.cell source t)
    return op.apply old
  | .postStep op t => do
    let old ← deeper.readCell source (← deeper.cell source t)
    deeper.writeCell (op.apply old) (← deeper.cell source t)
    return old
  | .ternary condition consequent alternate => do
    if (← deeper.expr source condition) ≠ 0 then deeper.expr source consequent
    else deeper.expr source alternate
  | .assign op? t value => do
    let n ← deeper.expr source value
    let n ← match op? with
      | none => pure n
      | some op => do
        let old ← deeper.readCell source (← deeper.cell source t)
        operate source op old n
    deeper.writeCell n (← deeper.cell source t)
    return n

/-- The cell of a target. The subscript of an associative array is its text without quotes; any
other subscript must be an expression. -/
def cell (deeper : Evaluators) (source : String) : Arith.Target → Eval Cell
  | .variable name => return .variable name
  | .element array index subscript => do
    if ← isAssociative array then return .element array (.text (Lexical.unquote subscript))
    else return .element array (.index (← deeper.expr source index))
  | .keyed array subscript => do
    if ← isAssociative array then return .element array (.text (Lexical.unquote subscript))
    else refuse (.arithmetic (shownSource source subscript) .badSubscript)

end

end Evaluators

end ShellExpansion
