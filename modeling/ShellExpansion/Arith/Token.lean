import ShellExpansion.Error
import ShellExpansion.Lexical.Closing
import ShellExpansion.Text.Alphabet

/-! # Tokens of arithmetic expressions

`tokenize` cuts an expression into constants, names (with a subscript in brackets, if one
follows), parameter expansions and operator symbols. Separators stand between tokens only. Each
token knows the position at which it begins. A symbol is the longest one that the text begins
with. -/

namespace ShellExpansion.Arith

open ShellExpansion.Lexical

/-- What a token is. -/
inductive Lexeme
  | number (text : String)
  | name (text : String) (subscript : Option String)
  | parameter (text : String)
  | symbol (text : String)
deriving DecidableEq, Repr

/-- A lexeme and the position of its first character. -/
structure Token where
  lexeme : Lexeme
  position : Nat
deriving DecidableEq, Repr

/-- The operator symbols, longer ones before those they begin with. -/
def symbols : List String :=
  ["<<=", ">>=",
   "**", "++", "--", "<<", ">>", "<=", ">=", "==", "!=", "&&", "||",
   "+=", "-=", "*=", "/=", "%=", "&=", "^=", "|=",
   "+", "-", "*", "/", "%", "<", ">", "=", "!", "~", "&", "^", "|",
   "?", ":", ",", "(", ")"]

/-- A character of a constant. -/
def isConstantChar (c : Char) : Bool :=
  Text.isAlphanumeric c || c == '#' || c == '@' || c == '_'

/-- A character of a name. -/
def isWordChar (c : Char) : Bool := Text.isAlphanumeric c || c == '_'

/-- A special parameter that a dollar sign may name. -/
def isSpecialParameter (c : Char) : Bool := c == '#' || c == '@' || c == '*' || c == '?'

/-- A constant that begins with `c`. No point may follow it. -/
def numberLexeme (c : Char) (rest : List Char) : Except ArithProblem (Lexeme × List Char) :=
  match rest.dropWhile isConstantChar with
  | '.' :: after => .error (.invalidOperator (String.ofList ('.' :: after)))
  | after => .ok (.number (String.ofList (c :: rest.takeWhile isConstantChar)), after)

/-- A name that begins with `c`, and its subscript. -/
def nameLexeme (c : Char) (rest : List Char) : Except ArithProblem (Lexeme × List Char) :=
  let name := String.ofList (c :: rest.takeWhile isWordChar)
  match rest.dropWhile isWordChar with
  | '[' :: after =>
    match splitClosing? '[' ']' after with
    | some (subscript, after) => .ok (.name name (some (String.ofList subscript)), after)
    | none => .error .badSubscript
  | after => .ok (.name name none, after)

/-- A parameter expansion, behind its dollar sign. -/
def parameterLexeme (cs : List Char) : Except ArithProblem (Lexeme × List Char) :=
  match cs with
  | '(' :: '(' :: rest =>
    match splitClosing? '(' ')' rest with
    | some (inside, ')' :: after) =>
      .ok (.parameter ("$((" ++ String.ofList inside ++ "))"), after)
    | _ => .error .unterminatedExpansion
  | '\x7b' :: rest =>
    match splitClosing? '\x7b' '\x7d' rest with
    | some (inside, after) =>
      .ok (.parameter ("$\x7b" ++ String.ofList inside ++ "\x7d"), after)
    | none => .error .badSubstitution
  | _ =>
    match cs.takeWhile isWordChar, cs with
    | [], c :: rest =>
      if isSpecialParameter c then .ok (.parameter (String.ofList ['$', c]), rest)
      else .ok (.parameter "$", cs)
    | name, _ => .ok (.parameter (String.ofList ('$' :: name)), cs.dropWhile isWordChar)

/-- The longest symbol at the front of the text. -/
def symbolLexeme (cs : List Char) : Except ArithProblem (Lexeme × List Char) :=
  match symbols.find? fun symbol => symbol.toList.isPrefixOf cs with
  | some symbol => .ok (.symbol symbol, cs.drop symbol.length)
  | none => .error (.invalidOperator (String.ofList cs))

/-- The lexeme that the text begins with, and the text after it. -/
def lexeme (c : Char) (rest : List Char) : Except ArithProblem (Lexeme × List Char) :=
  if Text.isDigit c then numberLexeme c rest
  else if Text.isLetter c || c == '_' then nameLexeme c rest
  else if c = '$' then parameterLexeme rest
  else symbolLexeme (c :: rest)

/-! ### Every lexeme takes a character -/

theorem length_dropWhile_le (p : Char → Bool) (cs : List Char) :
    (cs.dropWhile p).length ≤ cs.length :=
  (List.dropWhile_suffix p).length_le

theorem length_le_of_numberLexeme {c : Char} {rest after : List Char} {found : Lexeme}
    (h : numberLexeme c rest = .ok (found, after)) : after.length ≤ rest.length := by
  unfold numberLexeme at h
  split at h <;> simp_all
  grind [length_dropWhile_le]

theorem length_le_of_nameLexeme {c : Char} {rest after : List Char} {found : Lexeme}
    (h : nameLexeme c rest = .ok (found, after)) : after.length ≤ rest.length := by
  have := length_dropWhile_le isWordChar rest
  unfold nameLexeme at h
  split at h
  · split at h
    · next hs =>
      have := length_lt_of_splitClosing? hs
      grind
    · simp at h
  · grind

theorem length_le_of_parameterLexeme {cs after : List Char} {found : Lexeme}
    (h : parameterLexeme cs = .ok (found, after)) : after.length ≤ cs.length := by
  unfold parameterLexeme at h
  split at h
  · split at h
    · next hs =>
      have := length_lt_of_splitClosing? hs
      grind
    · simp at h
  · split at h
    · next hs =>
      have := length_lt_of_splitClosing? hs
      grind
    · simp at h
  · split at h
    · split at h <;> grind
    · grind [length_dropWhile_le]

theorem symbol_length_pos {symbol : String} (h : symbol ∈ symbols) : 0 < symbol.length := by
  revert h
  revert symbol
  decide

theorem length_le_of_symbolLexeme {c : Char} {rest after : List Char} {found : Lexeme}
    (h : symbolLexeme (c :: rest) = .ok (found, after)) : after.length ≤ rest.length := by
  unfold symbolLexeme at h
  split at h
  · next symbol hs =>
    have := symbol_length_pos (List.mem_of_find?_eq_some hs)
    simp only [Except.ok.injEq, Prod.mk.injEq] at h
    rw [← h.2, List.length_drop, List.length_cons]
    omega
  · simp at h

theorem length_le_of_lexeme {c : Char} {rest after : List Char} {found : Lexeme}
    (h : lexeme c rest = .ok (found, after)) : after.length ≤ rest.length := by
  unfold lexeme at h
  split at h
  · exact length_le_of_numberLexeme h
  · split at h
    · exact length_le_of_nameLexeme h
    · split at h
      · exact length_le_of_parameterLexeme h
      · exact length_le_of_symbolLexeme h

/-- The tokens of a text that begins at the given position. -/
def tokensFrom (position : Nat) (cs : List Char) : Except ArithProblem (List Token) :=
  match cs with
  | [] => .ok []
  | c :: rest =>
    if Text.isSeparator c then tokensFrom (position + 1) rest
    else match _h : lexeme c rest with
      | .ok (found, after) =>
        (tokensFrom (position + (rest.length + 1 - after.length)) after).map
          (⟨found, position⟩ :: ·)
      | .error problem => .error problem
termination_by cs.length
decreasing_by
  · simp
  · have := length_le_of_lexeme _h
    simp
    omega

/-- The tokens of an expression. -/
def tokenize (text : String) : Except Error (List Token) :=
  (tokensFrom 0 text.toList).mapError (.arithmetic text)

end ShellExpansion.Arith
