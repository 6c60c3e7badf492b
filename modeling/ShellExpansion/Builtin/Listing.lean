import ShellExpansion.Builtin.Options
import ShellExpansion.Lexical.Quote
import ShellExpansion.Store.Reference

/-! # Listings of variables

Two forms in which variables are printed so that they can be read back: declarations, which show
attributes and write values in double quotes, and plain assignments, which quote only where they
must. An index that is too long to be written cannot be listed. -/

namespace ShellExpansion.Builtin

/-- The elements of an array as the items of a literal. -/
def itemsText (quote : String → String) (entries : List (String × String)) : String :=
  "(" ++ " ".intercalate (entries.map fun entry => "[" ++ entry.1 ++ "]=" ++ quote entry.2) ++ ")"

/-- The text assigned to a variable so that it gets the value; `none` for a value that cannot be
assigned. -/
def assignedText? (quote : String → String) : Value → Option String
  | .unset => none
  | .scalar text => some (quote text)
  | .indexed elements =>
    some (itemsText quote (elements.entries.map fun entry => (toString entry.1, entry.2)))
  | .associative elements => some (itemsText quote elements.entries)
  | .reference target => if target = "" then none else some (quote target)

/-- A name and the text assigned to it. -/
def assignment (name text : String) : String := name ++ "=" ++ text

/-- The flags of a declaration: the letters of all attributes, or `--` when there are none. -/
def flagsWord (b : Binding) : String := if b.flags = "" then "--" else "-" ++ b.flags

/-- The declaration that recreates a variable. -/
def declarationText (name : String) (b : Binding) : String :=
  "declare " ++ flagsWord b ++ " " ++
    match assignedText? Lexical.doubleQuote b.value with
    | some text => assignment name text
    | none => name

/-- The numbers that a listing of a value shows. -/
def shownNumbers : Value → List Int
  | .indexed elements => elements.indices.map Int.ofNat
  | _ => []

/-- The declarations of the named variables, or of all variables when none is named; those that
fail the test are left out, and names without a variable are reported. -/
def listDeclarations (s : Store) (command : String) (names : List String)
    (test : Binding → Bool) : Except Fault Outcome := do
  let listed := if names.isEmpty then s.boundNames else names
  let shown := listed.filterMap fun name =>
    ((s.lookup name).filter test).map fun b => (name, b)
  checkWritable (shown.flatMap fun entry => shownNumbers entry.2.value)
  let lines := shown.map fun entry => declarationText entry.1 entry.2
  let missing := listed.filter fun name => (s.lookup name).isNone
  let complaints := missing.map fun name => "bash: " ++ command ++ ": " ++ name ++ ": not found\n"
  return ⟨(Outcome.ofLines lines).stdout, String.join complaints,
    if missing.isEmpty then 0 else 1⟩

/-- The line that assigns its value to a variable; references are left out. -/
def assignmentLine? (s : Store) (name : String) : Option String :=
  (s.lookup name).bind fun b =>
    if b.value.isReference then none
    else (assignedText? Lexical.quoteIfNeeded b.value).map (assignment name)

/-- The assignments of all variables that have a value. -/
def listAssignments (s : Store) : Except Fault Outcome := do
  checkWritable ((s.names.filterMap s.lookup).flatMap fun b => shownNumbers b.value)
  return Outcome.ofLines (s.names.filterMap (assignmentLine? s))

end ShellExpansion.Builtin
