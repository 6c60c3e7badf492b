import ShellExpansion.Error
import ShellExpansion.Lexical.Segment
import ShellExpansion.Text.Numeral

/-! # Brace expansion

A raw word is read as its segments (`Lexical.segments`), among which are groups in braces that
offer several texts to choose from. A group either lists words between commas, each of them
expanded in turn, or is a sequence `x..y` or `x..y..step` of numbers or letters (`Range`). Braces
that are no group are literal, and so is everything from a brace that is never closed. The meaning
of a word (`choices`) is every way to choose one text per group, the leftmost choice varying
slowest. Only a sequence with too long a number has no meaning (`sequence`). -/

namespace ShellExpansion.Brace

open ShellExpansion.Lexical

/-! ### Sequences -/

/-- A decimal number as it is written in a sequence. -/
structure Number where
  isNegative : Bool
  digits : List Char
deriving DecidableEq, Repr

namespace Number

/-- The characters of a number. -/
def text (n : Number) : List Char := if n.isNegative then '-' :: n.digits else n.digits

/-- The value of decimal digits of ASCII. -/
def decimal (digits : List Char) : Nat :=
  digits.foldl (fun value c => value * 10 + (c.toNat - '0'.toNat)) 0

/-- The value of a number. -/
def value (n : Number) : Int := if n.isNegative then -(decimal n.digits) else decimal n.digits

/-- The number is short enough to be read. -/
def isReadable (n : Number) : Bool := n.digits.length ≤ Text.maxDecimalDigits

/-- The number is written with zeros in front. -/
def isPadded (n : Number) : Bool :=
  match n.digits with
  | '0' :: _ :: _ => true
  | _ => false

end Number

/-- Reads a number, a minus sign in front of it allowed, off the front of a text. -/
def number? (cs : List Char) : Option (Number × List Char) :=
  let (isNegative, unsigned) := match cs with
    | '-' :: rest => (true, rest)
    | _ => (false, cs)
  let digits := unsigned.takeWhile Char.isDigit
  if digits.isEmpty then none else some (⟨isNegative, digits⟩, unsigned.dropWhile Char.isDigit)

/-- An end of a sequence. -/
inductive Endpoint
  | number (n : Number)
  | letter (c : Char)
deriving DecidableEq, Repr

/-- Reads an end of a sequence off the front of a text. -/
def endpoint? (cs : List Char) : Option (Endpoint × List Char) :=
  match number? cs with
  | some (n, rest) => some (.number n, rest)
  | none => match cs with
    | c :: rest => if c.isAlpha then some (.letter c, rest) else none
    | [] => none

/-- A sequence as it is written. -/
structure Range where
  first : Endpoint
  last : Endpoint
  step : Option Number
deriving DecidableEq, Repr

/-- Nothing is left but at most one newline. -/
def isEnd (cs : List Char) : Bool := cs.isEmpty || cs == ['\n']

/-- Reads `x..y` or `x..y..step`. -/
def range? (cs : List Char) : Option Range :=
  match endpoint? cs with
  | some (first, '.' :: '.' :: rest) =>
    match endpoint? rest with
    | some (last, rest) =>
      if isEnd rest then some ⟨first, last, none⟩
      else match rest with
        | '.' :: '.' :: rest =>
          match number? rest with
          | some (step, rest) => if isEnd rest then some ⟨first, last, some step⟩ else none
          | none => none
        | _ => none
    | none => none
  | _ => none

/-- The values from `first` towards `last`, in steps of `step`, none of them past `last`. -/
def progression (first last : Int) (step : Nat) : List Int :=
  (List.range ((last - first).natAbs / step + 1)).map fun (i : Nat) =>
    if first ≤ last then first + (i * step : Nat) else first - (i * step : Nat)

/-- Fills a number with zeros, behind its sign, up to a width. -/
def zeroFill (width : Nat) (written : List Char) : List Char :=
  match written with
  | '-' :: digits => '-' :: (List.replicate (width - written.length) '0' ++ digits)
  | _ => List.replicate (width - written.length) '0' ++ written

namespace Range

/-- The distance between two texts; a missing step and a step of zero count as one. -/
def stride (range : Range) : Nat :=
  match range.step with
  | some step => max step.value.natAbs 1
  | none => 1

/-- The numbers that are read for the texts of a range: its step, and its ends if both of them
are numbers. -/
def numbers (range : Range) : List Number :=
  range.step.toList ++ match range.first, range.last with
    | .number first, .number last => [first, last]
    | _, _ => []

/-- The texts of a range. Two numbers are padded to the longer of them if either is; two letters
must be of one case. Other ends make no range. -/
def texts? (range : Range) : Option (List (List Char)) :=
  match range.first, range.last with
  | .number first, .number last =>
    let width := if first.isPadded || last.isPadded
      then max first.text.length last.text.length else 0
    some ((progression first.value last.value range.stride).map fun n =>
      zeroFill width (toString n).toList)
  | .letter first, .letter last =>
    if first.isUpper == last.isUpper then
      some ((progression first.toNat last.toNat range.stride).map fun n => [Char.ofNat n.toNat])
    else none
  | _, _ => none

end Range

/-- The texts of a sequence; none when the text is no sequence. -/
def sequence (cs : List Char) : Except Fault (Option (List (List Char))) :=
  match range? cs with
  | some range =>
    if range.numbers.all Number.isReadable then .ok range.texts? else .error .numberTooLong
  | none => .ok none

/-! ### Groups -/

/-- The segments up to the brace that closes a group opened just before them, and those after it;
`depth` counts the groups inside. -/
def splitBrace? (depth : Nat) : List Segment → Option (List Segment × List Segment)
  | [] => none
  | segment :: rest =>
    if segment.isPlain '\x7d' then
      match depth with
      | 0 => some ([], rest)
      | depth + 1 => (splitBrace? depth rest).map fun parts => (segment :: parts.1, parts.2)
    else
      (splitBrace? (if segment.isPlain '\x7b' then depth + 1 else depth) rest).map fun parts =>
        (segment :: parts.1, parts.2)

/-- Puts a segment in front of the first of several words. -/
def consHead (segment : Segment) : List (List Segment) → List (List Segment)
  | [] => [[segment]]
  | first :: rest => (segment :: first) :: rest

/-- The words between the commas outside inner groups; `depth` counts the groups inside. -/
def splitCommas (depth : Int) : List Segment → List (List Segment)
  | [] => [[]]
  | segment :: rest =>
    if segment.isPlain ',' && depth == 0 then [] :: splitCommas depth rest
    else
      consHead segment (splitCommas
        (if segment.isPlain '\x7b' then depth + 1
          else if segment.isPlain '\x7d' then depth - 1 else depth) rest)

theorem length_of_splitBrace? {depth : Nat} {segments inside after : List Segment}
    (h : splitBrace? depth segments = some (inside, after)) :
    inside.length + after.length < segments.length := by
  fun_induction splitBrace? depth segments generalizing inside <;>
    simp_all [Option.map_eq_some_iff, Prod.ext_iff] <;> grind

theorem length_le_of_mem_splitCommas {depth : Int} {segments word : List Segment}
    (h : word ∈ splitCommas depth segments) : word.length ≤ segments.length := by
  fun_induction splitCommas depth segments generalizing word with
  | case1 => simp_all
  | case2 depth segment rest _ ih => grind
  | case3 depth segment rest _ ih =>
    generalize splitCommas _ rest = words at h ih
    cases words with
    | nil => simp [consHead] at h; grind
    | cons first words => simp [consHead] at h; grind

/-- Every text of the first list in front of every text of the second. -/
def pairs (heads tails : List (List Char)) : List (List Char) :=
  heads.flatMap fun head => tails.map (head ++ ·)

/-- The texts that a word expands to. -/
def choices (segments : List Segment) : Except Fault (List (List Char)) :=
  match segments with
  | [] => .ok [[]]
  | segment :: rest =>
    if segment.isPlain '\x7b' then
      match _h : splitBrace? 0 rest with
      | none => .ok [Segment.join (segment :: rest)]
      | some (inside, after) => do
        let words := splitCommas 0 inside
        if 1 < words.length then
          let heads ← words.attach.mapM fun ⟨word, _⟩ => choices word
          return pairs heads.flatten (← choices after)
        else match ← sequence (Segment.join inside) with
          | some heads => return pairs heads (← choices after)
          | none => return (← choices rest).map ('\x7b' :: ·)
    else return (← choices rest).map (segment.text ++ ·)
termination_by segments.length
decreasing_by
  · have := length_of_splitBrace? _h
    have := length_le_of_mem_splitCommas ‹_›
    grind
  · have := length_of_splitBrace? _h
    grind
  · have := length_of_splitBrace? _h
    grind
  all_goals simp only [List.length_cons]; omega

/-- The words that a raw word expands to; its quotes are kept. -/
def expand (word : String) : Except Fault (List String) :=
  (choices (segments word.toList)).map (·.map String.ofList)

end ShellExpansion.Brace
