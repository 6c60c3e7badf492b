import ShellExpansion.Glob.Pattern

/-! # Matching and searching

Where a pattern matches inside a text is worked out for all starting positions at once, one
element of the pattern after the other, from its last element to its first (`remainders`): for
each suffix of the text, how many characters are left behind the match that starts there. With
the smaller count preferred this is the longest match, with the larger count the shortest one.
The whole-text test and the four searches read their answers off these rows. -/

namespace ShellExpansion.Glob

/-- A stretch of a text, from the character at `start` up to the one before `stop`. -/
structure Span where
  start : Nat
  stop : Nat
deriving DecidableEq, Repr

/-! ### Rows -/

/-- One entry for each suffix of a text, the whole text first: how many characters follow the
match that starts there, if there is one. -/
abbrev Row := List (Option Nat)

/-- The row of the empty pattern on a text of the given length: it matches nothing but the empty
stretch, which leaves all characters. -/
def emptyRow : Nat → Row
  | 0 => [some 0]
  | size + 1 => some (size + 1) :: emptyRow size

/-- The row of an element for one character, put in front of a pattern with the given row. -/
def oneRow (accepts : Char → Bool) : List Char → Row → Row
  | c :: rest, _ :: row => (if accepts c then row.head?.join else none) :: oneRow accepts rest row
  | _, _ => [none]

/-- The better of two matches, where there is one. -/
def pick (better : Nat → Nat → Nat) : Option Nat → Option Nat → Option Nat
  | some m, some n => some (better m n)
  | some m, none => some m
  | none, n => n

/-- The row of a star, put in front of a pattern with the given row. -/
def starRow (better : Nat → Nat → Nat) : Row → Row
  | [] => []
  | entry :: row =>
    let scanned := starRow better row
    pick better entry scanned.head?.join :: scanned

/-- The row of a pattern on a text. -/
def remainders (better : Nat → Nat → Nat) (elements : List Element) (cs : List Char) : Row :=
  elements.foldr (fun element row =>
    match element with
    | .star => starRow better row
    | element => oneRow element.accepts cs row) (emptyRow cs.length)

/-- The row of the longest matches. -/
def longest (elements : List Element) (cs : List Char) : Row := remainders min elements cs

/-- The row of the shortest matches. -/
def shortest (elements : List Element) (cs : List Char) : Row := remainders max elements cs

/-! ### Answers -/

/-- The elements match the whole text. -/
def matchesList (elements : List Element) (cs : List Char) : Bool :=
  (longest elements cs).head?.join == some 0

/-- The pattern matches the whole text. -/
def isMatch (pattern text : String) : Bool := matchesList (elements pattern.toList) text.toList

/-- The longest (`greedy`) or shortest stretch at the start of the text that the pattern
matches. -/
def prefixSpan? (pattern text : String) (greedy : Bool) : Option Span :=
  let row := (if greedy then longest else shortest) (elements pattern.toList) text.toList
  row.head?.join.map fun left => ⟨0, text.length - left⟩

/-- The longest (`greedy`) or shortest stretch at the end of the text that the pattern
matches. -/
def suffixSpan? (pattern text : String) (greedy : Bool) : Option Span :=
  let row := longest (elements pattern.toList) text.toList
  let starts := row.zipIdx.filterMap fun entry => if entry.1 = some 0 then some entry.2 else none
  (if greedy then starts.head? else starts.getLast?).map fun start => ⟨start, text.length⟩

/-- The leftmost match in a row of longest matches in a text of the given size; the entries of
the row begin at `start`. -/
def firstSpan? (size start : Nat) : Row → Option Span
  | [] => none
  | none :: row => firstSpan? size (start + 1) row
  | some left :: _ => some ⟨start, size - left⟩

/-- The leftmost match at or behind a position, the longest one there. -/
def search (pattern text : String) (start : Nat) : Option Span :=
  firstSpan? text.length start
    ((longest (elements pattern.toList) text.toList).drop start)

/-- The matches from left to right, none overlapping the one before: the longest match at each
position, going on at its end. An empty match where the last match ended does not count. The
entries of the row begin at `start`, and the next `skip` of them lie within the last match. -/
def tiling (size skip : Nat) (lastStop : Option Nat) (start : Nat) : Row → List Span
  | [] => []
  | entry :: row =>
    match skip, entry with
    | skip + 1, _ => tiling size skip lastStop (start + 1) row
    | 0, none => tiling size 0 lastStop (start + 1) row
    | 0, some left =>
      let stop := size - left
      if start < stop then
        ⟨start, stop⟩ :: tiling size (stop - start - 1) (some stop) (start + 1) row
      else if lastStop = some start then tiling size 0 lastStop (start + 1) row
      else ⟨start, start⟩ :: tiling size 0 (some start) (start + 1) row

/-- The elements' matches in a text, from left to right. -/
def searchAllList (elements : List Element) (cs : List Char) : List Span :=
  tiling cs.length 0 none 0 (longest elements cs)

/-- The matches of a pattern in a text, from left to right. -/
def searchAll (pattern text : String) : List Span :=
  searchAllList (elements pattern.toList) text.toList

end ShellExpansion.Glob
