import ShellExpansion.Builtin.Declaration
import ShellExpansion.Builtin.Listing
import ShellExpansion.Eval.Word

/-! # Built-in commands

The commands that work on variables: `declare` and `local` create them, `readonly` and `export`
mark them, `unset` removes them, and `set` changes options and positional parameters. A command
prints and has an exit status; what is refused is reported and not raised. -/

namespace ShellExpansion.Builtin

open Eval

/-- The built-in commands. -/
inductive Command
  | declare | localize | unset | readonly | exports | settings
deriving DecidableEq, Repr

namespace Command

/-- The command of a name. -/
def ofName? (name : String) : Option Command :=
  match name with
  | "declare" => some declare
  | "typeset" => some declare
  | "local" => some localize
  | "unset" => some unset
  | "readonly" => some readonly
  | "export" => some exports
  | "set" => some settings
  | _ => none

end Command

/-- Runs a command on the words that parse as its options and operands. -/
def withOptions (command allowed : String) (words : List String)
    (run : Options → List String → Eval Outcome) : Eval Outcome :=
  match Options.parse command allowed.toList words with
  | .ok (options, operands) => run options operands
  | .error outcome => return outcome

/-- The command lists variables: it is asked to, or has no operands. -/
def wantsListing (options : Options) (operands : List String) : Bool :=
  options.isSet 'p' || operands.isEmpty

/-- Declares variables, in the innermost frame or, with `-g`, in the outermost one. -/
def declare (deeper : Evaluators) (words : List String) : Eval Outcome :=
  withOptions "declare" "aAginprx" words fun options operands => do
    if wantsListing options operands then
      ofExcept (listDeclarations (← store) "declare" operands fun _ => true)
    else
      declareAll deeper "declare" options
        (if options.isSet 'g' then .outermost else .current) false operands

/-- Declares variables of the function call under way; with `-I` they start as copies of those
they hide. -/
def localize (deeper : Evaluators) (words : List String) : Eval Outcome := do
  if (← store).depth = 0 then
    return Outcome.complaint "local" "can only be used in a function" 1
  else
    withOptions "local" "aAiInrx" words fun options operands =>
      declareAll deeper "local" options .current (options.isSet 'I') operands

/-- Makes variables read-only. -/
def readonly (deeper : Evaluators) (words : List String) : Eval Outcome :=
  withOptions "readonly" "aAp" words fun options operands => do
    if wantsListing options operands then
      ofExcept (listDeclarations (← store) "readonly" operands (·.attributes.readonly))
    else declareAll deeper "readonly" (options.give 'r' true) .nearest false operands

/-- Exports variables or, with `-n`, stops exporting them. -/
def exports (deeper : Evaluators) (words : List String) : Eval Outcome :=
  withOptions "export" "np" words fun options operands => do
    if wantsListing options operands then
      ofExcept (listDeclarations (← store) "export" operands (·.attributes.exported))
    else declareAll deeper "export" ⟨[('x', !options.isSet 'n')]⟩ .nearest false operands

/-- The report about a variable that could not be removed. -/
def unsetReport : Error → String
  | .readonlyVariable name => "bash: unset: " ++ name ++ ": cannot unset: readonly variable\n"
  | e => e.report

/-- Removes one variable or element. -/
def unsetOperand (deeper : Evaluators) (keepTarget : Bool) (word : String) :
    Eval (Option String) :=
  match splitSubscript word with
  | (name, subscript) =>
    if !isIdentifier name then
      return some ("bash: unset: \x60" ++ word ++ "': not a valid identifier\n")
    else
      reportOf unsetReport do
        match subscript with
        | some text => discard (unsetElement name (← deeper.elementKey name text))
        | none => discard (change (·.erase name keepTarget))

/-- Removes variables and elements; with `-n`, references themselves and not their targets. -/
def unset (deeper : Evaluators) (words : List String) : Eval Outcome :=
  withOptions "unset" "vn" words fun options operands =>
    reportEach (unsetOperand deeper (options.isSet 'n')) operands

/-- Sets whether unset parameters are errors. -/
def setNounset (state : Bool) : Eval Unit := modify fun shell => { shell with nounset := state }

/-- Replaces the positional parameters. -/
def setPositional (words : List String) : Eval Outcome := do
  setStore ((← store).setPositional words)
  return Outcome.success

/-- Carries out the letters of an option word of `set`; gives the complaint about the first letter
that is no option. -/
def setLetters (sign : Char) : List Char → Eval (Option Outcome)
  | [] => return none
  | letter :: rest => do
    if letter = 'u' then
      setNounset (sign = '-')
      setLetters sign rest
    else
      return some (Outcome.complaint "set" (String.ofList [sign, letter] ++ ": invalid option") 2)

/-- Carries out the words of `set`: options up to the first other word, which begins the
positional parameters. -/
def settingsOf : List String → Eval Outcome
  | [] => return Outcome.success
  | [word] => do
    if word = "-o" ∨ word = "+o" then
      let state := if (← get).nounset then "on" else "off"
      return Outcome.ofLines ["nounset        \t" ++ state]
    else one word []
  | word :: option :: rest => do
    if word = "-o" ∨ word = "+o" then
      if option = "nounset" then
        setNounset (word = "-o")
        settingsOf rest
      else return Outcome.complaint "set" (option ++ ": invalid option name") 1
    else one word (option :: rest)
where
  /-- Carries out one word that is not `-o` or `+o`, and the words behind it. -/
  one (word : String) (rest : List String) : Eval Outcome := do
    if word = "--" then setPositional rest
    else match word.toList with
      | sign :: letter :: letters =>
        if sign = '-' ∨ sign = '+' then
          match ← setLetters sign (letter :: letters) with
          | some complaint => return complaint
          | none => settingsOf rest
        else setPositional (word :: rest)
      | _ => setPositional (word :: rest)

/-- Changes options and positional parameters; without words, lists all variables. -/
def settings (words : List String) : Eval Outcome := do
  if words.isEmpty then ofExcept (listAssignments (← store)) else settingsOf words

/-- Runs a command with the words behind its name. -/
def Command.run (command : Command) (deeper : Evaluators) (words : List String) :
    Eval Outcome :=
  match command with
  | .declare => Builtin.declare deeper words
  | .localize => Builtin.localize deeper words
  | .unset => Builtin.unset deeper words
  | .readonly => Builtin.readonly deeper words
  | .exports => Builtin.exports deeper words
  | .settings => Builtin.settings words

end ShellExpansion.Builtin
