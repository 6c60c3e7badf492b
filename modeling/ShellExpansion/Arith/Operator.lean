import ShellExpansion.Error

/-! # Operators on signed 64-bit integers

Arithmetic is done on integers from `-2^63` to `2^63 - 1`. Results outside that range wrap around
(`wrap`), division truncates toward zero, and shifts take their distance modulo 64. Bits are those
of integers of any size, a negative one having all bits from some place on. An operator is undefined
only when it divides by zero or raises to a negative power (`BinaryOp.apply`). -/

namespace ShellExpansion.Arith

/-- The lowest integer of the signed 64-bit range, `-2^63`. -/
def lowest : Int := -9223372036854775808

/-- How many integers the range has, `2^64`. -/
def modulus : Int := 18446744073709551616

/-- The integer of the signed 64-bit range that is equal to `n` modulo `2^64`. -/
def wrap (n : Int) : Int := (n - lowest) % modulus + lowest

/-! ### Bits of integers

The integer `Int.negSucc n` has the bits that `n` does not have. -/

/-- The bits of `m` that `n` does not have. -/
def clearBits (m n : Nat) : Nat := m ^^^ (m &&& n)

/-- The bits that both integers have. -/
def andBits : Int → Int → Int
  | .ofNat m, .ofNat n => .ofNat (m &&& n)
  | .ofNat m, .negSucc n => .ofNat (clearBits m n)
  | .negSucc m, .ofNat n => .ofNat (clearBits n m)
  | .negSucc m, .negSucc n => .negSucc (m ||| n)

/-- The bits that one of the integers has. -/
def orBits : Int → Int → Int
  | .ofNat m, .ofNat n => .ofNat (m ||| n)
  | .ofNat m, .negSucc n => .negSucc (clearBits n m)
  | .negSucc m, .ofNat n => .negSucc (clearBits m n)
  | .negSucc m, .negSucc n => .negSucc (m &&& n)

/-- The bits that exactly one of the integers has. -/
def xorBits : Int → Int → Int
  | .ofNat m, .ofNat n => .ofNat (m ^^^ n)
  | .ofNat m, .negSucc n => .negSucc (m ^^^ n)
  | .negSucc m, .ofNat n => .negSucc (m ^^^ n)
  | .negSucc m, .negSucc n => .ofNat (m ^^^ n)

/-! ### Operators -/

/-- The value of a truth value. -/
def ofBool (b : Bool) : Int := if b then 1 else 0

/-- Operators with two operands. -/
inductive BinaryOp
  | comma | or | and | bitOr | bitXor | bitAnd | eq | ne | lt | gt | le | ge
  | shiftLeft | shiftRight | add | sub | mul | div | mod | pow
deriving DecidableEq, Repr

/-- Operators with one operand in front of which they stand. -/
inductive UnaryOp
  | neg | plus | not | complement
deriving DecidableEq, Repr

/-- Whether a variable is changed by one upward or downward. -/
inductive StepOp
  | increment | decrement
deriving DecidableEq, Repr

namespace BinaryOp

/-- The operator as it is written. -/
def symbol : BinaryOp → String
  | comma => ","
  | or => "||"
  | and => "&&"
  | bitOr => "|"
  | bitXor => "^"
  | bitAnd => "&"
  | eq => "=="
  | ne => "!="
  | lt => "<"
  | gt => ">"
  | le => "<="
  | ge => ">="
  | shiftLeft => "<<"
  | shiftRight => ">>"
  | add => "+"
  | sub => "-"
  | mul => "*"
  | div => "/"
  | mod => "%"
  | pow => "**"

/-- The power of an integer, wrapped at every step: squares halve the exponent. -/
def wrappedPow (base : Int) (exponent : Nat) : Int :=
  if exponent = 0 then 1
  else
    let half := wrappedPow (wrap (base * base)) (exponent / 2)
    if exponent % 2 = 1 then wrap (base * half) else half

/-- The distance of a shift: the count modulo 64. -/
def shiftDistance (count : Int) : Nat := (count % 64).toNat

/-- The operator on two values. The logical operators give one for true and zero for false. -/
def apply (op : BinaryOp) (left right : Int) : Except ArithProblem Int :=
  match op with
  | comma => .ok right
  | or => .ok (ofBool (left ≠ 0 ∨ right ≠ 0))
  | and => .ok (ofBool (left ≠ 0 ∧ right ≠ 0))
  | bitOr => .ok (orBits left right)
  | bitXor => .ok (xorBits left right)
  | bitAnd => .ok (andBits left right)
  | eq => .ok (ofBool (left = right))
  | ne => .ok (ofBool (left ≠ right))
  | lt => .ok (ofBool (left < right))
  | gt => .ok (ofBool (left > right))
  | le => .ok (ofBool (left ≤ right))
  | ge => .ok (ofBool (left ≥ right))
  | shiftLeft => .ok (wrap (left <<< shiftDistance right))
  | shiftRight => .ok (left >>> shiftDistance right)
  | add => .ok (wrap (left + right))
  | sub => .ok (wrap (left - right))
  | mul => .ok (wrap (left * right))
  | div => if right = 0 then .error .divisionByZero else .ok (wrap (left.tdiv right))
  | mod => if right = 0 then .error .divisionByZero else .ok (wrap (left.tmod right))
  | pow => if right < 0 then .error .negativeExponent else .ok (wrappedPow left right.toNat)

end BinaryOp

namespace UnaryOp

/-- The operator as it is written. -/
def symbol : UnaryOp → String
  | neg => "-"
  | plus => "+"
  | not => "!"
  | complement => "~"

/-- The operator on a value. -/
def apply : UnaryOp → Int → Int
  | neg, n => wrap (-n)
  | plus, n => n
  | not, n => ofBool (n = 0)
  | complement, n => -n - 1

end UnaryOp

namespace StepOp

/-- The operator as it is written. -/
def symbol : StepOp → String
  | increment => "++"
  | decrement => "--"

/-- The value after the step. -/
def apply : StepOp → Int → Int
  | increment, n => wrap (n + 1)
  | decrement, n => wrap (n - 1)

end StepOp

end ShellExpansion.Arith
