import ShellExpansion.Glob.Search

/-! # Replacing matches

`replace` puts a text in the place of matches of a pattern: of the first one, of all of them, or
of one that is anchored at the start or at the end of the text. `removePrefix` and `removeSuffix`
take an anchored match away. An empty pattern matches nothing, but an anchored one still marks
the place where the replacement goes. -/

namespace ShellExpansion.Glob

/-- Which matches are replaced. -/
inductive Occurrence
  | first
  | all
  /-- The longest match at the start of the text. -/
  | start
  /-- The longest match at the end of the text. -/
  | stop
deriving DecidableEq, Repr

/-- Puts the replacement in the place of each span; the characters begin at `position`, and the
spans follow each other. -/
def fill (replacement : List Char) (position : Nat) (cs : List Char) : List Span → List Char
  | [] => cs
  | span :: spans =>
    cs.take (span.start - position) ++ replacement
      ++ fill replacement span.stop (cs.drop (span.stop - position)) spans

/-- The spans of a text that are replaced. -/
def occurrences (occurrence : Occurrence) (pattern text : String) : List Span :=
  match occurrence with
  | .first => (search pattern text 0).toList
  | .all => searchAll pattern text
  | .start => (prefixSpan? pattern text true).toList
  | .stop => (suffixSpan? pattern text true).toList

/-- The text with matches of the pattern replaced. -/
def replace (occurrence : Occurrence) (pattern replacement text : String) : String :=
  if pattern = "" then
    match occurrence with
    | .start => replacement ++ text
    | .stop => text ++ replacement
    | _ => text
  else
    String.ofList
      (fill replacement.toList 0 text.toList (occurrences occurrence pattern text))

/-- The text without the longest or shortest match at its start. -/
def removePrefix (pattern text : String) (greedy : Bool) : String :=
  match prefixSpan? pattern text greedy with
  | some span => String.ofList (text.toList.drop span.stop)
  | none => text

/-- The text without the longest or shortest match at its end. -/
def removeSuffix (pattern text : String) (greedy : Bool) : String :=
  match suffixSpan? pattern text greedy with
  | some span => String.ofList (text.toList.take span.start)
  | none => text

end ShellExpansion.Glob
