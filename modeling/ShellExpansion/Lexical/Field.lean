import ShellExpansion.Lexical.Segment
import ShellExpansion.Text.Blank

/-! # Fields

`fields` splits a raw text into words at its separators (space, tab, newline) that are not
shielded. The quotes stay in the words. -/

namespace ShellExpansion.Lexical

/-- The segment separates words. -/
def Segment.isSeparator : Segment → Bool
  | shield _ => false
  | plain c => Text.isSeparator c

/-- Groups segments into words, dropping the separators between them; `word` holds the segments
of the word under way. -/
def groupFields (word : List Segment) : List Segment → List (List Segment)
  | [] => if word.isEmpty then [] else [word.reverse]
  | segment :: rest =>
    if segment.isSeparator then
      if word.isEmpty then groupFields [] rest else word.reverse :: groupFields [] rest
    else groupFields (segment :: word) rest

/-- The words of a raw text. -/
def fields (text : String) : List String :=
  (groupFields [] (segments text.toList)).map fun word => String.ofList (Segment.join word)

end ShellExpansion.Lexical
