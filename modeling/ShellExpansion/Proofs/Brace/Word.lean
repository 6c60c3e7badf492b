import Mathlib.Data.List.ProdSigma
import ShellExpansion.Brace
import ShellExpansion.Proofs.Lexical.Segment

/-! # Brace words and their meaning

A brace word is a sequence of pieces (`Piece`): stretches that stand for themselves (`Stretch`),
groups of two or more words with commas between them, and single words in braces.  `wordText`
writes a word down, `wordMeaning` says which texts it stands for: every way to choose one text of
each piece, the leftmost choice varying slowest.  A single word in braces stands for the values of
the sequence that it spells, if it spells one, and else for its own texts in literal braces.  The
only words without a meaning are those with a sequence whose numbers are too long to be read. -/

namespace ShellExpansion.Brace

open ShellExpansion.Lexical

/-- A character that stands for itself everywhere in a brace word. -/
def isOrdinary (c : Char) : Bool :=
  c != '\x7b' && c != '\x7d' && c != ',' && c != '\\' && c != '\'' && c != '"' && c != '$'

/-- A stretch of a brace word that stands for itself. -/
inductive Stretch
  | plain (text : List Char) (ordinary : ∀ c ∈ text, isOrdinary c = true)
  | escaped (c : Char)
  | singleQuoted (text : List Char) (closed : '\'' ∉ text)
  | doubleQuoted (text : List Char) (closed : DoubleQuoted text)
  /-- A parameter expansion; the first closing brace that matches is the one at its end. -/
  | expansion (text : List Char)
      (closed : splitClosing? '\x7b' '\x7d' (text ++ ['\x7d']) = some (text, []))

/-- The characters of a stretch. -/
def Stretch.text : Stretch → List Char
  | plain text _ => text
  | escaped c => ['\\', c]
  | singleQuoted text _ => '\'' :: (text ++ ['\''])
  | doubleQuoted text _ => '"' :: (text ++ ['"'])
  | expansion text _ => '$' :: '\x7b' :: (text ++ ['\x7d'])

/-- A piece of a brace word. -/
inductive Piece
  | stretch (s : Stretch)
  /-- Two or more words in braces, with commas between them. -/
  | choice (first second : List Piece) (others : List (List Piece))
  /-- One word in braces. -/
  | braced (word : List Piece)

mutual

/-- The characters of a piece. -/
def Piece.text : Piece → List Char
  | .stretch s => s.text
  | .choice first second others =>
    '\x7b' :: (wordText first ++ ',' :: (wordText second ++ (otherTexts others ++ ['\x7d'])))
  | .braced word => '\x7b' :: (wordText word ++ ['\x7d'])

/-- The characters of a word. -/
def wordText : List Piece → List Char
  | [] => []
  | piece :: word => piece.text ++ wordText word

/-- The characters of further words of a group, each with the comma in front of it. -/
def otherTexts : List (List Piece) → List Char
  | [] => []
  | word :: words => ',' :: (wordText word ++ otherTexts words)

end

/-- Every first text with every second text behind it, the first one varying slowest. -/
def concatenations (heads tails : List (List Char)) : List (List Char) :=
  (heads ×ˢ tails).map fun pair => pair.1 ++ pair.2

mutual

/-- The texts that a piece stands for. -/
def Piece.meaning : Piece → Except Fault (List (List Char))
  | .stretch s => return [s.text]
  | .choice first second others => do
    return (← wordMeaning first) ++ ((← wordMeaning second) ++ (← otherMeanings others))
  | .braced word => do
    match ← sequence (wordText word) with
    | some values => return values
    | none => return (← wordMeaning word).map fun text => '\x7b' :: (text ++ ['\x7d'])

/-- The texts that a word stands for. -/
def wordMeaning : List Piece → Except Fault (List (List Char))
  | [] => return [[]]
  | piece :: word => do return concatenations (← piece.meaning) (← wordMeaning word)

/-- The texts that further words of a group stand for. -/
def otherMeanings : List (List Piece) → Except Fault (List (List Char))
  | [] => return []
  | word :: words => do return (← wordMeaning word) ++ (← otherMeanings words)

end

end ShellExpansion.Brace
