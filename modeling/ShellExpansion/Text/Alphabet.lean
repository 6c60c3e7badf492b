import ShellExpansion.Text.Blank
import ShellExpansion.Text.Alphabet.Table

/-! # Letters and digits

The character classes that names and numbers are made of: letters (`isLetter`), digits
(`isDigit`, which takes in superscripts and the like), and all signs that are a letter or have a
numeric value (`isAlphanumeric`). Only the digits of a decimal system have a value
(`decimalValue?`). On ASCII each class is the usual one; above ASCII it is a table. -/

namespace ShellExpansion.Text

/-- A letter of any script. -/
def isLetter (c : Char) : Bool := c.isAlpha || inRanges letterRanges c

/-- The value of a digit of a decimal system, in any script. -/
def decimalValue? (c : Char) : Option Nat :=
  if c.isDigit then some (c.toNat - '0'.toNat)
  else (decimalZeros.find? fun z => z ≤ c.toNat && c.toNat < z + 10).map (c.toNat - ·)

/-- A digit by its class: one of a decimal system, or a superscript, subscript or enclosed one. -/
def isDigit (c : Char) : Bool := (decimalValue? c).isSome || inRanges digitSignRanges c

/-- A letter, a digit, or another sign with a numeric value. -/
def isAlphanumeric (c : Char) : Bool :=
  c.isAlpha || c.isDigit || inRanges letterRanges c || inRanges numberSignRanges c

/-- The text is not empty and holds digits only. -/
def isDigits (text : String) : Bool := !text.isEmpty && text.toList.all isDigit

theorem isAlphanumeric_of_isLetter {c : Char} (h : isLetter c = true) :
    isAlphanumeric c = true := by
  simp only [isLetter, isAlphanumeric, Bool.or_eq_true] at *
  grind

end ShellExpansion.Text
