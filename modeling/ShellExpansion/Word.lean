import ShellExpansion.Lexical.Closing
import ShellExpansion.Lexical.Quote
import ShellExpansion.Text.Alphabet

/-! # Words

A word is read as a sequence of pieces (`Word.pieces`): characters, backslash pairs, quoted
sections, and the forms that a dollar sign begins. Inside double quotes only the dollar forms and
a few backslash pairs keep their meaning. A quote that is never closed reaches to the end of the
word; a brace that is never closed is kept as a form of its own, and makes the expansion fail when
its turn comes. -/

namespace ShellExpansion.Word

open Lexical

/-- What a dollar sign begins. -/
inductive Dollar
  /-- An arithmetic expression in double parentheses. -/
  | arithmetic (text : String)
  /-- A parameter expansion in braces. -/
  | braced (content : String)
  /-- An opening brace that is never closed; the text begins with the dollar sign. -/
  | unclosed (text : String)
  /-- The name of a parameter. -/
  | named (name : String)
  /-- Nothing: the dollar sign stands for itself. -/
  | alone
deriving DecidableEq, Repr

/-- A part of a section in double quotes. -/
inductive Atom
  | char (c : Char)
  | dollar (form : Dollar)
deriving DecidableEq, Repr

/-- A part of a word. -/
inductive Piece
  | char (c : Char)
  /-- A backslash and the character it shields. -/
  | escaped (c : Char)
  | single (text : String)
  | double (atoms : List Atom)
  | dollar (form : Dollar)
deriving DecidableEq, Repr

/-- A character that goes on a name behind a dollar sign. -/
def isNamePart (c : Char) : Bool := Text.isAlphanumeric c || c == '_'

/-- A name of one character that can follow a dollar sign. -/
def isShortName (c : Char) : Bool := Text.isDigit c || c == '@' || c == '*' || c == '#'

/-- A name behind a dollar sign, and the text behind it. -/
def named (cs : List Char) : Dollar × List Char :=
  match cs with
  | [] => (.alone, [])
  | c :: rest =>
    if Text.isLetter c || c == '_' then
      (.named (String.ofList (c :: rest.takeWhile isNamePart)), rest.dropWhile isNamePart)
    else if isShortName c then (.named (String.ofList [c]), rest)
    else (.alone, cs)

/-- The form that the text behind a dollar sign makes with it, and the text behind the form. -/
def dollar (cs : List Char) : Dollar × List Char :=
  match cs with
  | '(' :: '(' :: rest =>
    match splitClosing? '(' ')' rest with
    | some (inside, ')' :: after) => (.arithmetic (String.ofList inside), after)
    | _ => (.alone, cs)
  | '\x7b' :: rest =>
    match splitClosing? '\x7b' '\x7d' rest with
    | some (inside, after) => (.braced (String.ofList inside), after)
    | none => (.unclosed (String.ofList ('$' :: cs)), [])
  | _ => named cs

theorem length_le_of_named (cs : List Char) : (named cs).2.length ≤ cs.length := by
  unfold named
  split
  · simp
  · next c rest =>
    have := (List.dropWhile_suffix (l := rest) isNamePart).length_le
    split
    · simp only [List.length_cons]
      omega
    · split <;> simp

theorem length_le_of_dollar (cs : List Char) : (dollar cs).2.length ≤ cs.length := by
  unfold dollar
  split
  · split
    · next h =>
      have := length_lt_of_splitClosing? h
      simp at this ⊢
      omega
    · simp
  · split
    · next h =>
      have := length_lt_of_splitClosing? h
      simp
      omega
    · simp
  · exact length_le_of_named cs

/-- The parts of the inside of a double-quoted section. -/
def atoms (cs : List Char) : List Atom :=
  match cs with
  | [] => []
  | '\\' :: c :: rest =>
    if isDoubleEscapable c then .char c :: atoms rest else .char '\\' :: atoms (c :: rest)
  | '$' :: rest => .dollar (dollar rest).1 :: atoms (dollar rest).2
  | c :: rest => .char c :: atoms rest
termination_by cs.length
decreasing_by
  all_goals simp only [List.length_cons]
  · omega
  · omega
  · have := length_le_of_dollar rest
    omega
  · omega

/-- The inside of a single-quoted section and the text behind its closing quote. -/
def splitSingle : List Char → List Char × List Char
  | [] => ([], [])
  | c :: rest => if c = '\'' then ([], rest) else consFirst c (splitSingle rest)

/-- The inside of a double-quoted section and the text behind its closing quote. -/
def splitDouble : List Char → List Char × List Char
  | [] => ([], [])
  | '\\' :: c :: rest => consFirst '\\' (consFirst c (splitDouble rest))
  | c :: rest => if c = '"' then ([], rest) else consFirst c (splitDouble rest)

theorem length_le_of_splitSingle (cs : List Char) : (splitSingle cs).2.length ≤ cs.length := by
  fun_induction splitSingle cs with
  | case1 => exact Nat.le_refl 0
  | case2 rest => exact Nat.le_succ _
  | case3 c rest _ ih => exact Nat.le_succ_of_le ih

theorem length_le_of_splitDouble (cs : List Char) : (splitDouble cs).2.length ≤ cs.length := by
  fun_induction splitDouble cs with
  | case1 => exact Nat.le_refl 0
  | case2 c rest ih => exact Nat.le_succ_of_le (Nat.le_succ_of_le ih)
  | case3 rest => exact Nat.le_succ _
  | case4 c rest _ _ ih => exact Nat.le_succ_of_le ih

/-- The pieces of the characters of a word. -/
def piecesList (cs : List Char) : List Piece :=
  match cs with
  | [] => []
  | '\'' :: rest =>
    .single (String.ofList (splitSingle rest).1) :: piecesList (splitSingle rest).2
  | '"' :: rest => .double (atoms (splitDouble rest).1) :: piecesList (splitDouble rest).2
  | '\\' :: c :: rest => .escaped c :: piecesList rest
  | '$' :: rest => .dollar (dollar rest).1 :: piecesList (dollar rest).2
  | c :: rest => .char c :: piecesList rest
termination_by cs.length
decreasing_by
  all_goals simp only [List.length_cons]
  · have := length_le_of_splitSingle rest
    omega
  · have := length_le_of_splitDouble rest
    omega
  · omega
  · have := length_le_of_dollar rest
    omega
  · omega

/-- The pieces of a word. -/
def pieces (text : String) : List Piece := piecesList text.toList

end ShellExpansion.Word
