/-! # Quoting

Three ways to write a text so that it is read back unchanged: `singleQuote`, `doubleQuote`, and
`quoteIfNeeded`, which leaves a text without special characters as it is. `unquote` removes
quotes and backslashes without expanding anything. -/

namespace ShellExpansion.Lexical

/-- The characters that a backslash shields inside double quotes. -/
def isDoubleEscapable (c : Char) : Bool := c == '"' || c == '\\' || c == '$' || c == '\x60'

/-- The inside of a single-quoted section: a quote is written outside, behind a backslash. -/
def singleQuoteBody (cs : List Char) : List Char :=
  cs.flatMap fun c => if c = '\'' then ['\'', '\\', '\'', '\''] else [c]

/-- The text in single quotes. -/
def singleQuote (text : String) : String :=
  String.ofList ('\'' :: singleQuoteBody text.toList ++ ['\''])

/-- The inside of a double-quoted section: a backslash precedes each special character. -/
def doubleQuoteBody (cs : List Char) : List Char :=
  cs.flatMap fun c => if isDoubleEscapable c then ['\\', c] else [c]

/-- The text in double quotes. -/
def doubleQuote (text : String) : String :=
  String.ofList ('"' :: doubleQuoteBody text.toList ++ ['"'])

/-- A character that a listing shows without quotes. -/
def isUnquotedSafe (c : Char) : Bool := c.isAlphanum || "_/.,:@%^+=~-".toList.contains c

/-- The characters go on a text that needs no quotes; a newline may end it. -/
def endsUnquoted : List Char → Bool
  | [] => true
  | [c] => isUnquotedSafe c || c == '\n'
  | c :: rest => isUnquotedSafe c && endsUnquoted rest

/-- The text as a listing shows it: in single quotes unless all its characters are safe. -/
def quoteIfNeeded (text : String) : String :=
  match text.toList with
  | [] => "''"
  | c :: rest => if isUnquotedSafe c && endsUnquoted rest then text else singleQuote text

mutual

/-- Removes the quotes of a text that begins outside quotes. -/
def unquoteBare : List Char → List Char
  | [] => []
  | '\\' :: c :: rest => c :: unquoteBare rest
  | c :: rest =>
    if c = '\'' then unquoteSingle rest
    else if c = '"' then unquoteDouble rest
    else c :: unquoteBare rest

/-- Removes the quotes of a text that begins inside single quotes. -/
def unquoteSingle : List Char → List Char
  | [] => []
  | c :: rest => if c = '\'' then unquoteBare rest else c :: unquoteSingle rest

/-- Removes the quotes of a text that begins inside double quotes. -/
def unquoteDouble : List Char → List Char
  | [] => []
  | '\\' :: c :: rest =>
    if isDoubleEscapable c then c :: unquoteDouble rest else '\\' :: unquoteDouble (c :: rest)
  | c :: rest => if c = '"' then unquoteBare rest else c :: unquoteDouble rest

end

/-- The text without quotes and backslashes. -/
def unquote (text : String) : String := String.ofList (unquoteBare text.toList)

end ShellExpansion.Lexical
