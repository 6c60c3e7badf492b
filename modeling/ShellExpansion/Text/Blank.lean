/-! # Blanks and separators

Two classes of white space are told apart. A *blank* (`isBlank`) is any space character of any
script; blanks are what `strip` removes from the ends of a text. A *separator* (`isSeparator`) is
one of space, tab and newline; separators split words and stand between the tokens of an
expression. Every separator is a blank (`isBlank_of_isSeparator`). -/

namespace ShellExpansion.Text

/-- The character lies in one of the closed ranges of code points. -/
def inRanges (ranges : List (Nat × Nat)) (c : Char) : Bool :=
  ranges.any fun range => range.1 ≤ c.toNat && c.toNat ≤ range.2

/-- The spaces, line ends and column moves of all scripts. -/
def blankRanges : List (Nat × Nat) :=
  [(0x9, 0xd), (0x1c, 0x20), (0x85, 0x85), (0xa0, 0xa0), (0x1680, 0x1680), (0x2000, 0x200a),
   (0x2028, 0x2029), (0x202f, 0x202f), (0x205f, 0x205f), (0x3000, 0x3000)]

/-- A space character of any script. -/
def isBlank (c : Char) : Bool := inRanges blankRanges c

/-- Space, tab or newline. -/
def isSeparator (c : Char) : Bool := c == ' ' || c == '\t' || c == '\n'

theorem isBlank_of_isSeparator {c : Char} (h : isSeparator c = true) : isBlank c = true := by
  simp only [isSeparator, Bool.or_eq_true, beq_iff_eq] at h
  rcases h with (rfl | rfl) | rfl <;> decide

/-- The characters without the blanks at both ends. -/
def stripList (cs : List Char) : List Char :=
  ((cs.dropWhile isBlank).reverse.dropWhile isBlank).reverse

/-- The text without the blanks at both ends. -/
def strip (text : String) : String := String.ofList (stripList text.toList)

/-- The text has no character but blanks. -/
def allBlank (text : String) : Bool := text.toList.all isBlank

end ShellExpansion.Text
