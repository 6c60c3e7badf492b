import ShellExpansion.Eval.Expression
import ShellExpansion.Eval.Parameter
import ShellExpansion.Word

/-! # Expanding words

A word is expanded piece by piece, from left to right (`Evaluators.expandWord`). In pattern mode
the text of quoted pieces is escaped, so that it matches only itself. `evaluators n` are the
evaluators of words and expressions that go at most `n` levels into each other. -/

namespace ShellExpansion

namespace Evaluators

open Eval Word

/-- Expands what a dollar sign begins. -/
def expandDollar (deeper : Evaluators) : Dollar → Eval String
  | .arithmetic text => return toString (← deeper.evaluate text)
  | .braced content => do
    deeper.expandToText (← query fun _ => Parameter.parse content)
  | .unclosed text => refuse (.substitution (.unclosed text))
  | .named name => deeper.expandToText (Parameter.ofName name)
  | .alone => return "$"

/-- Expands a part of a double-quoted section. -/
def expandAtom (deeper : Evaluators) : Atom → Eval String
  | .char c => return String.ofList [c]
  | .dollar form => deeper.expandDollar form

/-- Expands pieces one after the other and joins the results. -/
def expandEach {α : Type} (expand : α → Eval String) : List α → Eval String
  | [] => return ""
  | piece :: rest => do
    let first ← expand piece
    return first ++ (← expandEach expand rest)

/-- Text that stood in quotes, for a use of the word. -/
def quotedText (mode : WordMode) (text : String) : String :=
  match mode with
  | .text => text
  | .pattern => Glob.escape text

/-- Expands a piece of a word. -/
def expandPiece (deeper : Evaluators) (mode : WordMode) : Piece → Eval String
  | .char c => return String.ofList [c]
  | .escaped c =>
    return match mode with
      | .text => String.ofList [c]
      | .pattern => String.ofList ['\\', c]
  | .single text => return quotedText mode text
  | .double atoms => return quotedText mode (← expandEach deeper.expandAtom atoms)
  | .dollar form => deeper.expandDollar form

/-- Expands a word to one text. -/
def expandWord (deeper : Evaluators) (mode : WordMode) (text : String) : Eval String :=
  expandEach (deeper.expandPiece mode) (pieces text)

/-- The text without one double quote at each end, where it has both. -/
def withoutQuotes (cs : List Char) : List Char :=
  match cs with
  | '"' :: rest =>
    match rest.reverse with
    | '"' :: body => body.reverse
    | _ => cs
  | _ => cs

/-- The parameter expansion that makes up the whole text, possibly in double quotes. -/
def loneParameter? (text : String) : Option (Except Error Parameter) :=
  let bare := withoutQuotes text.toList
  match bare with
  | '$' :: '\x7b' :: rest =>
    match Lexical.splitClosing? '\x7b' '\x7d' rest with
    | some (_, []) => some (Parameter.parse (String.ofList bare))
    | _ => none
  | '$' :: rest =>
    let name := String.ofList rest
    let short := match rest with
      | [c] => c.isDigit || c == '@' || c == '*' || c == '#'
      | _ => false
    if isIdentifier name || short then some (.ok (Parameter.ofName name)) else none
  | _ => none

/-- Expands a text to words: a parameter expansion that stands alone gives all its words, any
other text gives one. -/
def expand (deeper : Evaluators) (text : String) : Eval (List String) :=
  match loneParameter? text with
  | some (.ok parameter) => deeper.expandParameter parameter
  | some (.error e) => refuse e
  | none => return [← deeper.expandWord .text text]

end Evaluators

/-- The evaluators that go at most the given number of levels into each other. -/
def evaluators : Nat → Evaluators
  | 0 => .exhausted
  | levels + 1 => {
      word := fun mode text => (evaluators levels).expandWord mode text
      expression := fun source expr => (evaluators levels).expr source expr }

namespace Limits

/-- How many levels evaluators go into each other: enough for every chain of variables that the
bounds admit, and for words nested a thousand deep besides. -/
def nesting (limits : Limits) : Nat := 1000 + limits.arithmeticDepth.toNat

end Limits

end ShellExpansion
