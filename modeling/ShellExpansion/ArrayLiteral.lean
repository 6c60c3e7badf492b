import ShellExpansion.Lexical.Field
import ShellExpansion.Lexical.Quote

/-! # Array literals

The text `(v0 v1 [key]=v2 ...)` lists the items of an array: words, each with an optional key in
brackets (`ArrayLiteral.ofText`). Quotes are removed from keys and values; keys stay texts. -/

namespace ShellExpansion

open Lexical

/-- An item of an array literal. -/
structure ArrayItem where
  key : Option String
  value : String
deriving DecidableEq, Repr

/-- The items of an array literal, in order. -/
structure ArrayLiteral where
  items : List ArrayItem
deriving DecidableEq, Repr

namespace ArrayLiteral

/-- The values before the first item that has a key. -/
def positionalValues (literal : ArrayLiteral) : List String :=
  (literal.items.takeWhile (·.key.isNone)).map (·.value)

/-- Some item has a key. -/
def hasKeys (literal : ArrayLiteral) : Bool := literal.items.any (·.key.isSome)

/-- The characters between parentheses that enclose the text. -/
def enclosed? : List Char → Option (List Char)
  | '(' :: rest =>
    match rest.reverse with
    | ')' :: body => some body.reverse
    | _ => none
  | _ => none

/-- The text begins with an opening and ends with a closing parenthesis. -/
def isLiteral (text : String) : Bool := (enclosed? text.toList).isSome

/-- The item that a raw word stands for. -/
def itemOfWord (word : String) : ArrayItem :=
  match word.toList with
  | '[' :: rest =>
    match splitClosing? '[' ']' rest with
    | some (key, '=' :: value) =>
      ⟨some (unquote (String.ofList key)), unquote (String.ofList value)⟩
    | _ => ⟨none, unquote word⟩
  | _ => ⟨none, unquote word⟩

/-- Reads a literal; the parentheses and blanks around them may be missing. -/
def ofText (text : String) : ArrayLiteral :=
  let inner := Text.stripList text.toList
  ⟨(fields (String.ofList ((enclosed? inner).getD inner))).map itemOfWord⟩

end ArrayLiteral

end ShellExpansion
