/-! # Names of variables

`isIdentifier` says which texts can name a variable: a letter or underscore of ASCII, then
letters, digits and underscores, at most one line end after them, and not the underscore alone.
`splitSubscript` takes a text such as `name[sub]` apart, and `withSubscript` puts the parts
together again. -/

namespace ShellExpansion

/-- A character that can begin a name. -/
def isNameStart (c : Char) : Bool := c.isAlpha || c == '_'

/-- A character that can stand inside a name. -/
def isNameChar (c : Char) : Bool := c.isAlphanum || c == '_'

/-- The characters go on a name up to its end, which a newline may follow. -/
def endsName : List Char → Bool
  | [] => true
  | [c] => isNameChar c || c == '\n'
  | c :: rest => isNameChar c && endsName rest

/-- The text can name a variable. -/
def isIdentifier (text : String) : Bool :=
  match text.toList with
  | [] => false
  | c :: rest => isNameStart c && endsName rest && text != "_"

/-- The text in front of a closing bracket that ends the characters, a newline after it aside. -/
def beforeLastBracket? (cs : List Char) : Option (List Char) :=
  match cs.reverse with
  | ']' :: rest => some rest.reverse
  | '\n' :: ']' :: rest => some rest.reverse
  | _ => none

/-- Splits `name[sub]` into its name and its subscript; any other text has no subscript. -/
def splitSubscript (text : String) : String × Option String :=
  let name := text.toList.takeWhile isNameChar
  match name, text.toList.dropWhile isNameChar with
  | c :: _, '[' :: rest =>
    if isNameStart c then
      match beforeLastBracket? rest with
      | some sub => (String.ofList name, some (String.ofList sub))
      | none => (text, none)
    else (text, none)
  | _, _ => (text, none)

/-- A parameter as it is written: its name, then its subscript in brackets. -/
def withSubscript (name : String) : Option String → String
  | none => name
  | some sub => name ++ "[" ++ sub ++ "]"

theorem toList_withSubscript (name sub : String) :
    (withSubscript name (some sub)).toList = name.toList ++ '[' :: (sub.toList ++ [']']) := by
  simp [withSubscript]

end ShellExpansion
