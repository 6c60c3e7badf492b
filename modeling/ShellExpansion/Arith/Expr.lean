import ShellExpansion.Arith.Operator

/-! # Arithmetic expressions

The trees of arithmetic expressions. What can be assigned to is a type of its own (`Target`): a
variable, or an element of an array. The subscript of an element is kept as it is written, and as
an expression when it is one; the key of an associative array need not be. -/

namespace ShellExpansion.Arith

mutual

/-- An arithmetic expression. -/
inductive Expr
  | number (value : Int)
  | read (target : Target)
  /-- A parameter expansion, as it is written with its dollar sign. -/
  | parameter (text : String)
  | binary (op : BinaryOp) (left right : Expr)
  | unary (op : UnaryOp) (operand : Expr)
  /-- A step before the value is taken. -/
  | preStep (op : StepOp) (target : Target)
  /-- A step after the value is taken. -/
  | postStep (op : StepOp) (target : Target)
  | ternary (condition consequent alternate : Expr)
  /-- An assignment; with an operator, the old value is its left operand. -/
  | assign (op : Option BinaryOp) (target : Target) (value : Expr)
  | group (inner : Expr)

/-- What an expression can read and write. -/
inductive Target
  | variable (name : String)
  /-- An element whose subscript is an expression. -/
  | element (array : String) (index : Expr) (subscript : String)
  /-- An element whose subscript is no expression. -/
  | keyed (array subscript : String)

end

deriving instance DecidableEq, Repr for Expr, Target

mutual

/-- The numbers that stand in an expression, from left to right. -/
def Expr.numbers : Expr → List Int
  | .number value => [value]
  | .read target => target.numbers
  | .parameter _ => []
  | .binary _ left right => left.numbers ++ right.numbers
  | .unary _ operand => operand.numbers
  | .preStep _ target => target.numbers
  | .postStep _ target => target.numbers
  | .ternary condition consequent alternate =>
    condition.numbers ++ consequent.numbers ++ alternate.numbers
  | .assign _ target value => target.numbers ++ value.numbers
  | .group inner => inner.numbers

/-- The numbers that stand in the subscript of a target. -/
def Target.numbers : Target → List Int
  | .variable _ => []
  | .element _ index _ => index.numbers
  | .keyed _ _ => []

end

end ShellExpansion.Arith
