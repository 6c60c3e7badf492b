import ShellExpansion.Text.Alphabet

/-! # Numerals

`readNumeral base text` reads an integer written in a base up to 36: blanks around it, a sign,
digits of any decimal script or ASCII letters of either case, and single underscores between
digits. A base of 16 may be announced by `0x` and a base of 8 by `0o`, the zero in any script. In
base ten the number of digits is bounded, leading zeros counted; the bound holds for writing a
number as well (`isWritable`). -/

namespace ShellExpansion.Text

/-- White space that may surround a numeral: the control characters from tab to carriage return,
the space, and the blanks above ASCII. -/
def isNumeralPadding (c : Char) : Bool :=
  if c.toNat < 128 then c == ' ' || (9 ≤ c.toNat && c.toNat ≤ 13) else isBlank c

/-- More digits than this are no numeral in base ten. Bases that are powers of two are read digit
by digit, and know no bound. -/
def maxDecimalDigits : Nat := 4300

/-- The digit of ASCII for a decimal digit of any script; another character stays what it is. -/
def asciiDigit (c : Char) : Char :=
  match decimalValue? c with
  | some value => Nat.digitChar value
  | none => c

/-- The value of a digit: decimal digits, then letters from ten on. -/
def digitValue? (c : Char) : Option Nat :=
  if 'a' ≤ c ∧ c ≤ 'z' then some (c.toNat - 'a'.toNat + 10)
  else if 'A' ≤ c ∧ c ≤ 'Z' then some (c.toNat - 'A'.toNat + 10)
  else if c.isDigit then some (c.toNat - '0'.toNat)
  else none

/-- Reads digits up to the end of the text, each underscore standing between two digits; `value`
is what the digits so far are worth. -/
def readDigits (base value : Nat) : List Char → Option Nat
  | [] => some value
  | '_' :: c :: rest => readDigit c rest
  | c :: rest => readDigit c rest
where
  /-- Takes one digit and goes on with the rest. -/
  readDigit (c : Char) (rest : List Char) : Option Nat :=
    match digitValue? c with
    | some digit => if digit < base then readDigits base (value * base + digit) rest else none
    | none => none

/-- The digits, underscores between them aside, are no more than the base allows. -/
def isWithinBound (base : Nat) (cs : List Char) : Bool :=
  base != 10 || cs.countP (· != '_') ≤ maxDecimalDigits

/-- Reads a non-empty sequence of digits. -/
def readUnsigned (base : Nat) (cs : List Char) : Option Nat :=
  match cs with
  | [] => none
  | '_' :: _ => none
  | cs => if isWithinBound base cs then readDigits base 0 cs else none

/-- The digits after the announcement of the base; one underscore may follow it. -/
def dropBaseMark (base : Nat) (cs : List Char) : List Char :=
  match cs with
  | '0' :: mark :: rest =>
    if (base = 16 ∧ (mark = 'x' ∨ mark = 'X')) ∨ (base = 8 ∧ (mark = 'o' ∨ mark = 'O')) then
      match rest with
      | '_' :: rest => rest
      | rest => rest
    else cs
  | cs => cs

/-- The characters without the padding around a numeral. -/
def stripPadding (cs : List Char) : List Char :=
  ((cs.dropWhile isNumeralPadding).reverse.dropWhile isNumeralPadding).reverse

/-- Reads an integer in the given base. -/
def readNumeral (base : Nat) (text : String) : Option Int :=
  match (stripPadding text.toList).map asciiDigit with
  | '-' :: cs => (readUnsigned base (dropBaseMark base cs)).map fun n => -(n : Int)
  | '+' :: cs => (readUnsigned base (dropBaseMark base cs)).map Int.ofNat
  | cs => (readUnsigned base (dropBaseMark base cs)).map Int.ofNat

/-- The integer is written with no more digits than a numeral in base ten may have. -/
def isWritable (n : Int) : Bool := (toString n.natAbs).length ≤ maxDecimalDigits

end ShellExpansion.Text
