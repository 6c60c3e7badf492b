import ShellExpansion.Text.Blank
import ShellExpansion.Text.LetterCase.Table

/-! # Upper and lower case

`upper` and `lower` change the case of a whole text, in every script. One letter may become
several characters (`upperChar`, `lowerChar`). The lower case of a capital sigma depends on its
place: it is the final form exactly when the sigma ends a word (`endsWord`), that is, when a cased
letter comes before it and none comes after it, other marks being passed over. -/

namespace ShellExpansion.Text

/-- The code point that a run sends the character to, if the run covers it. -/
def CaseRun.image? (run : CaseRun) (c : Char) : Option Char :=
  if run.first ≤ c.toNat ∧ c.toNat ≤ run.last ∧ (c.toNat - run.first) % run.step = 0 then
    some (Char.ofNat (c.toNat + run.shift).toNat)
  else none

/-- The upper case of one character. -/
def upperChar (c : Char) : List Char :=
  if c.toNat < 128 then [c.toUpper]
  else match upperSequences.find? (·.1 == c.toNat) with
    | some (_, codes) => codes.map Char.ofNat
    | none => [(upperRuns.findSome? (·.image? c)).getD c]

/-- The lower case of one character that stands alone. -/
def lowerChar (c : Char) : List Char :=
  if c.toNat < 128 then [c.toLower]
  else if c = 'İ' then ['i', Char.ofNat 0x307]
  else [(lowerRuns.findSome? (·.image? c)).getD c]

/-- A letter with case, for the form of a neighbouring sigma. -/
def isCased (c : Char) : Bool := c.isAlpha || inRanges casedRanges c

/-- A mark that is passed over when the neighbours of a sigma are looked up. -/
def isCaseIgnorable (c : Char) : Bool :=
  c == '\'' || c == '.' || c == ':' || c == '^' || c == '\x60' || inRanges caseIgnorableRanges c

/-- The first character that is not passed over is a letter with case. -/
def meetsCased (cs : List Char) : Bool :=
  (cs.find? fun c => !isCaseIgnorable c).any isCased

/-- A sigma between the two texts ends a word; the text before it is given in reverse. -/
def endsWord (reversedBefore after : List Char) : Bool :=
  meetsCased reversedBefore && !meetsCased after

/-- The upper case of a text. -/
def upper (text : String) : String := String.ofList (text.toList.flatMap upperChar)

/-- The lower case of the characters that follow those in `reversedBefore`. -/
def lowerFrom (reversedBefore : List Char) : List Char → List Char
  | [] => []
  | c :: rest =>
    (if c = 'Σ' then [if endsWord reversedBefore rest then 'ς' else 'σ'] else lowerChar c)
      ++ lowerFrom (c :: reversedBefore) rest

/-- The lower case of a text. -/
def lower (text : String) : String := String.ofList (lowerFrom [] text.toList)

/-- The text with its first character in upper case. -/
def capitalize (text : String) : String :=
  match text.toList with
  | [] => ""
  | c :: rest => String.ofList (upperChar c ++ rest)

end ShellExpansion.Text
