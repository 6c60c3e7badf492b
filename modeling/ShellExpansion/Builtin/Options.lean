/-! # Options of commands

A command takes option words, each a sign with letters behind it, and operands. `-` sets the
options of its letters and `+` clears them. A word that holds an equals sign is an operand, and
`--` ends the options. -/

namespace ShellExpansion.Builtin

/-- What a command printed, and its exit status. -/
structure Outcome where
  stdout : String
  stderr : String
  exitCode : Nat
deriving DecidableEq, Repr

namespace Outcome

/-- The command succeeded and printed nothing. -/
def success : Outcome := ⟨"", "", 0⟩

/-- The command printed lines. -/
def ofLines (lines : List String) : Outcome := ⟨String.join (lines.map (· ++ "\n")), "", 0⟩

/-- The command printed a complaint under its name and ended with the given status. -/
def complaint (command text : String) (exitCode : Nat) : Outcome :=
  ⟨"", "bash: " ++ command ++ ": " ++ text ++ "\n", exitCode⟩

end Outcome

/-- The options of a command: for each letter given, whether it was set or cleared last. -/
structure Options where
  states : List (Char × Bool)
deriving DecidableEq, Repr

namespace Options

/-- The option was set. -/
def isSet (options : Options) (letter : Char) : Bool := options.states.lookup letter == some true

/-- The option was cleared. -/
def isCleared (options : Options) (letter : Char) : Bool :=
  options.states.lookup letter == some false

/-- The options with one more set or cleared. -/
def give (options : Options) (letter : Char) (state : Bool) : Options :=
  ⟨(letter, state) :: options.states⟩

/-- The options with the letters of a word given one after the other; refused at a letter that is
not allowed. -/
def giveLetters (command : String) (allowed : List Char) (sign : Char) :
    Options → List Char → Except Outcome Options
  | options, [] => .ok options
  | options, letter :: rest =>
    if allowed.contains letter then
      giveLetters command allowed sign (options.give letter (sign = '-')) rest
    else
      .error (Outcome.complaint command
        (String.ofList [sign, letter] ++ ": invalid option") 2)

/-- The letters of an option word, and its sign; other words are operands. -/
def letters? (word : String) : Option (Char × List Char) :=
  match word.toList with
  | sign :: letter :: rest =>
    if (sign = '-' ∨ sign = '+') ∧ '=' ∉ word.toList then some (sign, letter :: rest) else none
  | _ => none

/-- Splits the words of a command into options and operands. -/
def parse (command : String) (allowed : List Char) :
    List String → Except Outcome (Options × List String)
  | words => go ⟨[]⟩ [] words
where
  /-- Goes on behind some options and operands; the operands so far are given in reverse. -/
  go (options : Options) (operands : List String) :
      List String → Except Outcome (Options × List String)
    | [] => .ok (options, operands.reverse)
    | word :: rest =>
      if word = "--" then .ok (options, operands.reverse ++ rest)
      else match letters? word with
        | none => go options (word :: operands) rest
        | some (sign, letters) =>
          match giveLetters command allowed sign options letters with
          | .ok options => go options operands rest
          | .error outcome => .error outcome

end Options

end ShellExpansion.Builtin
