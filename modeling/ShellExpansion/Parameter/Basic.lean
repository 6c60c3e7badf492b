import ShellExpansion.Glob.Replace
import ShellExpansion.Identifier

/-! # Parameter expansions

What stands between the braces of a parameter expansion: a parameter, possibly with a subscript
or read indirectly, and an operation on its value. The words of operations are raw text; they are
expanded only when the operation needs them. -/

namespace ShellExpansion

/-- What is done about a missing parameter. -/
inductive MissingAction
  /-- `-`: a default takes its place. -/
  | substitute
  /-- `=`: a default is assigned to it. -/
  | assign
  /-- `?`: the expansion fails; an empty word stands for the usual message. -/
  | require
  /-- `+`: the word takes the place of a parameter that is not missing. -/
  | alternative
deriving DecidableEq, Repr

/-- The end of a value that a pattern is removed from. -/
inductive Side
  | front | back
deriving DecidableEq, Repr

/-- The case that letters are brought to. -/
inductive LetterCase
  | upper | lower
deriving DecidableEq, Repr

/-- The transformations written with an at sign. -/
inductive Transform
  | quote | upper | lower | capitalize | attributes | assignment
deriving DecidableEq, Repr

/-- An operation on the value of a parameter. -/
inductive Operation
  /-- `-` `=` `?` `+`; with a colon in front, an empty value counts as missing too. -/
  | missing (action : MissingAction) (checkEmpty : Bool) (word : String)
  | length
  /-- `:offset:length`, both of them arithmetic expressions. -/
  | substring (offset : String) (length : Option String)
  | remove (side : Side) (greedy : Bool) (pattern : String)
  | replace (occurrence : Glob.Occurrence) (pattern replacement : String)
  /-- `^` `,`: the case of the characters that match, or of the first one only; an empty pattern
  stands for any character. -/
  | changeCase (letterCase : LetterCase) (all : Bool) (pattern : String)
  | transform (transform : Transform)
  /-- The names of variables that begin with the parameter's name. -/
  | names (joined : Bool)
  /-- The keys of an array. -/
  | keys (joined : Bool)
deriving DecidableEq, Repr

/-- A parameter expansion. -/
structure Parameter where
  name : String
  subscript : Option String
  /-- The value of the parameter names the one that is expanded. -/
  indirect : Bool
  operation : Option Operation
deriving DecidableEq, Repr

namespace Parameter

/-- The expansion of a name alone. -/
def ofName (name : String) : Parameter := ⟨name, none, false, none⟩

/-- The parameter as it is written. -/
def written (parameter : Parameter) : String := withSubscript parameter.name parameter.subscript

/-- The subscript that stands for all elements, each of them a word. -/
def isAllSubscript (subscript : Option String) : Bool :=
  subscript == some "@" || subscript == some "*"

/-- The expansion is of all elements of an array. -/
def isAllElements (parameter : Parameter) : Bool := isAllSubscript parameter.subscript

end Parameter

end ShellExpansion
