import ShellExpansion.Error
import ShellExpansion.Lexical.Segment
import ShellExpansion.Parameter.Basic

/-! # Parsing parameter expansions

`Parameter.parse` reads the text of a parameter expansion, with its dollar sign and braces or
without them. A text that does not parse is refused as a whole. -/

namespace ShellExpansion.Parameter

open Lexical

/-! ### Names -/

/-- The special parameters of one character. -/
def isSpecialName (c : Char) : Bool := "@*#?$!-".toList.contains c

/-- The name and the subscript at the front of a text, and the text behind them. A name is an
identifier, which may have a subscript, a number, or a special character. -/
def name? : List Char → Option (String × Option String × List Char)
  | [] => none
  | c :: rest =>
    if isNameStart c then
      let name := String.ofList (c :: rest.takeWhile isNameChar)
      match rest.dropWhile isNameChar with
      | '[' :: after =>
        (splitClosing? '[' ']' after).map fun parts =>
          (name, some (String.ofList parts.1), parts.2)
      | after => some (name, none, after)
    else if c.isDigit then
      some (String.ofList (c :: rest.takeWhile Char.isDigit), none, rest.dropWhile Char.isDigit)
    else if isSpecialName c then some (String.ofList [c], none, rest)
    else none

/-- The text is an identifier followed by `@` or `*`: the identifier, and whether it was `*`. -/
def nameAndStar? (cs : List Char) : Option (String × Bool) :=
  match cs with
  | [] => none
  | c :: rest =>
    if isNameStart c then
      let name := String.ofList (c :: rest.takeWhile isNameChar)
      match rest.dropWhile isNameChar with
      | ['@'] => some (name, false)
      | ['*'] => some (name, true)
      | _ => none
    else none

/-! ### Operations -/

/-- Splits at the first colon outside parentheses and brackets that belongs to no conditional;
`depth` counts open brackets and `pending` open conditionals. -/
def splitColon (depth : Int) (pending : Nat) : List Char → List Char × Option (List Char)
  | [] => ([], none)
  | c :: rest =>
    if c = ':' ∧ depth = 0 ∧ pending = 0 then ([], some rest)
    else
      let depth' := if c = '(' ∨ c = '[' then depth + 1
        else if c = ')' ∨ c = ']' then depth - 1 else depth
      let pending' := if c = '?' ∧ depth = 0 then pending + 1
        else if c = ':' ∧ depth = 0 then pending - 1 else pending
      let parts := splitColon depth' pending' rest
      (c :: parts.1, parts.2)

/-- The arithmetic expansion that the text begins with and the text behind its inner closing
parenthesis; `none` inside when it is never closed. -/
def arithmetic? : List Char → Option (Option (List Char × List Char))
  | '$' :: '(' :: '(' :: rest =>
    some ((splitClosing? '(' ')' rest).map fun parts =>
      ('$' :: '(' :: '(' :: parts.1 ++ [')'], parts.2))
  | _ => none

theorem length_lt_of_arithmetic? {cs first after : List Char}
    (h : arithmetic? cs = some (some (first, after))) : after.length < cs.length := by
  unfold arithmetic? at h
  split at h
  · simp only [Option.some.injEq, Option.map_eq_some_iff, Prod.mk.injEq] at h
    obtain ⟨parts, hs, _, rfl⟩ := h
    have := length_lt_of_splitClosing? hs
    simp
    omega
  · simp at h

/-- Splits at the first slash outside quotes, escapes and expansions. -/
def splitSlash? (cs : List Char) : Option (List Char × List Char) :=
  match _ha : arithmetic? cs with
  | some none => none
  | some (some (first, after)) =>
    (splitSlash? after).map fun parts => (first ++ parts.1, parts.2)
  | none => match _hs : shielded? cs with
    | some (first, after) =>
      (splitSlash? after).map fun parts => (first ++ parts.1, parts.2)
    | none => match cs with
      | [] => none
      | c :: rest =>
        if c = '/' then some ([], rest)
        else (splitSlash? rest).map fun parts => (c :: parts.1, parts.2)
termination_by cs.length
decreasing_by
  · exact length_lt_of_arithmetic? _ha
  · exact length_lt_of_shielded? _hs
  · simp

/-- The action of the operators for missing parameters. -/
def missingAction? : Char → Option MissingAction
  | '-' => some .substitute
  | '=' => some .assign
  | '?' => some .require
  | '+' => some .alternative
  | _ => none

/-- The transformation of a letter. -/
def transform? : Char → Option Transform
  | 'Q' => some .quote
  | 'U' => some .upper
  | 'L' => some .lower
  | 'u' => some .capitalize
  | 'a' => some .attributes
  | 'A' => some .assignment
  | _ => none

/-- The operator of a replacement, behind its first slash: which matches it replaces, and its
pattern and text. -/
def replacement (cs : List Char) : Operation :=
  let (occurrence, body) : Glob.Occurrence × List Char := match cs with
    | '/' :: body => (.all, body)
    | '#' :: body => (.start, body)
    | '%' :: body => (.stop, body)
    | body => (.first, body)
  let (pattern, text) := (splitSlash? body).getD (body, [])
  .replace occurrence (String.ofList pattern) (String.ofList text)

/-- The operation that the rest of an expansion asks for, if it asks for one. -/
def operation? : List Char → Option (Option Operation)
  | [] => some none
  | ':' :: rest =>
    let substring :=
      let (offset, length) := splitColon 0 0 rest
      Operation.substring (String.ofList offset) (length.map String.ofList)
    match rest with
    | c :: word =>
      match missingAction? c with
      | some action => some (some (.missing action true (String.ofList word)))
      | none => some (some substring)
    | [] => some (some substring)
  | '#' :: '#' :: rest => some (some (.remove .front true (String.ofList rest)))
  | '#' :: rest => some (some (.remove .front false (String.ofList rest)))
  | '%' :: '%' :: rest => some (some (.remove .back true (String.ofList rest)))
  | '%' :: rest => some (some (.remove .back false (String.ofList rest)))
  | '/' :: rest => some (some (replacement rest))
  | '^' :: '^' :: rest => some (some (.changeCase .upper true (String.ofList rest)))
  | '^' :: rest => some (some (.changeCase .upper false (String.ofList rest)))
  | ',' :: ',' :: rest => some (some (.changeCase .lower true (String.ofList rest)))
  | ',' :: rest => some (some (.changeCase .lower false (String.ofList rest)))
  | ['@', c] => (transform? c).map fun transform => some (.transform transform)
  | c :: word =>
    (missingAction? c).map fun action => some (.missing action false (String.ofList word))

/-! ### Whole expansions -/

/-- A parameter with an operation behind it. -/
def named? (indirect : Bool) (cs : List Char) : Option Parameter :=
  match name? cs with
  | some (name, subscript, rest) =>
    (operation? rest).map fun operation => ⟨name, subscript, indirect, operation⟩
  | none => none

/-- The character goes on an expansion in which `#` is the parameter, not the length operator. -/
def followsCount (c : Char) : Bool := ":-=?+%/\x7d".toList.contains c

/-- Reads what stands between the braces. -/
def content? (cs : List Char) : Option Parameter :=
  match cs with
  | '#' :: c :: rest =>
    if followsCount c then named? false cs
    else match name? (c :: rest) with
      | some (name, subscript, []) => some ⟨name, subscript, false, some .length⟩
      | _ => none
  | '!' :: c :: rest =>
    match name? (c :: rest) with
    | some (name, some "@", []) => some ⟨name, some "@", false, some (.keys false)⟩
    | some (name, some "*", []) => some ⟨name, some "*", false, some (.keys true)⟩
    | _ =>
      match nameAndStar? (c :: rest) with
      | some (name, joined) => some ⟨name, none, false, some (.names joined)⟩
      | none => named? true (c :: rest)
  | _ => named? false cs

/-- The text between a dollar sign with an opening brace and a closing brace, where the text is
enclosed in them. -/
def inner (cs : List Char) : List Char :=
  match cs with
  | '$' :: '\x7b' :: rest =>
    match rest.reverse with
    | '\x7d' :: body => body.reverse
    | _ => cs
  | _ => cs

/-- Reads a parameter expansion, in its braces or without them. -/
def parse (text : String) : Except Error Parameter :=
  let content := inner text.toList
  match content? content with
  | some parameter => .ok parameter
  | none => .error (.substitution (.malformed (String.ofList content)))

end ShellExpansion.Parameter
