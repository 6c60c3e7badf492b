import ShellExpansion.Error
import ShellExpansion.Text.Numeral

/-! # Integer constants

`constant expression text` reads a constant of the expression: a decimal number, a hexadecimal
one after `0x`, an octal one after `0`, or `base#digits` with a base from 2 to 64. In a base the
digits are the decimal digits, the small letters, the capital letters, `@` and `_`; up to base 36
capital and small letters mean the same. -/

namespace ShellExpansion.Arith

/-- The value of a digit in a base; the base itself for a character that is no digit. -/
def baseDigit (base : Nat) (c : Char) : Except Fault Nat :=
  if Text.isDigit c then
    match Text.decimalValue? c with
    | some value => .ok value
    | none => .error .notANumber
  else if 'a' ≤ c ∧ c ≤ 'z' then .ok (c.toNat - 'a'.toNat + 10)
  else if 'A' ≤ c ∧ c ≤ 'Z' then
    .ok (c.toNat - 'A'.toNat + if base ≤ 36 then 10 else 36)
  else if c = '@' then .ok 62
  else if c = '_' then .ok 63
  else .ok base

/-- The value of digits in a base, in front of which `value` was read. -/
def baseDigits (refuse : Fault) (base value : Nat) : List Char → Except Fault Nat
  | [] => .ok value
  | c :: rest =>
    match baseDigit base c with
    | .ok digit =>
      if digit < base then baseDigits refuse base (value * base + digit) rest else .error refuse
    | .error fault => .error fault

/-- Reads a constant that stands in an expression. -/
def constant (expression text : String) : Except Fault Int :=
  let refuse (problem : ArithProblem) : Fault := .error (.arithmetic expression problem)
  match text.toList.dropWhile (· != '#') with
  | '#' :: digits =>
    match Text.readNumeral 10 (String.ofList (text.toList.takeWhile (· != '#'))) with
    | none => .error (refuse .invalidNumber)
    | some base =>
      if base < 2 ∨ 64 < base then .error (refuse .invalidBase)
      else if digits.isEmpty then .error (refuse .invalidNumber)
      else
        (baseDigits (refuse (.digitTooGreat (String.ofList digits))) base.toNat 0 digits).map
          Int.ofNat
  | _ =>
    let value? := match text.toList with
      | '0' :: 'x' :: rest => Text.readNumeral 16 (String.ofList rest)
      | '0' :: 'X' :: rest => Text.readNumeral 16 (String.ofList rest)
      | '0' :: c :: rest => Text.readNumeral 8 (String.ofList (c :: rest))
      | _ => Text.readNumeral 10 text
    match value? with
    | some value => .ok value
    | none => .error (refuse (.digitTooGreat text))

end ShellExpansion.Arith
