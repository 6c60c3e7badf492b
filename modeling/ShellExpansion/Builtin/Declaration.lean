import ShellExpansion.Builtin.Options
import ShellExpansion.Eval.Element

/-! # Commands that declare variables

What `declare`, `local`, `readonly` and `export` share: each operand names a variable and may
assign to it, and the options say which attributes it gets or loses. An operand that is refused
is reported, and the others are still carried out. -/

namespace ShellExpansion.Builtin

open Eval

/-- An operand of a declaration: a name, perhaps with a subscript, and what is assigned to it. -/
structure Operand where
  target : String
  value : Option String
  append : Bool
deriving DecidableEq, Repr

/-- Reads `name`, `name=value` or `name+=value`. -/
def Operand.ofWord (word : String) : Operand :=
  match word.toList.dropWhile (· != '=') with
  | '=' :: value =>
    let name := word.toList.takeWhile (· != '=')
    match name.reverse with
    | '+' :: rest => ⟨String.ofList rest.reverse, some (String.ofList value), true⟩
    | _ => ⟨String.ofList name, some (String.ofList value), false⟩
  | _ => ⟨word, none, false⟩

/-- Runs actions one after the other. The text that each of them reports is collected; the exit
status is one if there is any. -/
def reportEach {α : Type} (action : α → Eval (Option String)) (operands : List α) :
    Eval Outcome := do
  let reports ← operands.mapM action
  let complaints := reports.filterMap id
  return ⟨"", String.join complaints, if complaints.isEmpty then 0 else 1⟩

/-- What is to be reported about an action: the error that it was refused with, if it was. Other
faults go on. -/
def reportOf (describe : Error → String) (action : Eval Unit) : Eval (Option String) :=
  fun shell =>
    match action shell with
    | (.ok _, shell) => (.ok none, shell)
    | (.error (.error e), shell) => (.ok (some (describe e)), shell)
    | (.error fault, shell) => (.error fault, shell)

/-- The kind of value that options ask for. -/
def kindOf (options : Options) : Option Attribute :=
  if options.isSet 'n' then some .reference
  else if options.isSet 'A' then some .associative
  else if options.isSet 'a' then some .indexed
  else none

/-- The declaration that options ask for. -/
def declarationOf (options : Options) (scope : Scope) (inherit : Bool) : Store.Declaration where
  kind := kindOf options
  add := [Attribute.integer, .exported].filter fun a => options.isSet a.letter
  remove := [Attribute.integer, .reference, .readonly, .exported].filter fun a =>
    options.isCleared a.letter
  scope := scope
  inherit := inherit

/-- Carries out a declaration for one operand. -/
def declareOperand (deeper : Evaluators) (command : String) (options : Options)
    (request : Store.Declaration) (word : String) : Eval Unit := do
  let operand := Operand.ofWord word
  let (name, subscript) := splitSubscript operand.target
  let forReference := request.kind == some .reference
  if !isIdentifier name then refuse (.invalidIdentifier word (some command))
  if forReference &&
      (options.isSet 'a' || options.isSet 'A' || subscript.any (· != "")) then
    refuse (.attributes name .referenceIsNoArray)
  if options.isCleared 'n' then setStore ((← store).dropReference name)
  match forReference, operand.value with
  | true, some target => discard (partialChange (·.setReference name target request.scope))
  | _, value? =>
    discard (partialChange (·.declare name request))
    if let some value := value? then
      discard (deeper.assign operand.target value request.scope operand.append)
  if options.isSet 'r' then
    discard (partialChange (·.declare name ⟨none, [.readonly], [], request.scope, false⟩))

/-- Carries out a declaration for each operand. -/
def declareAll (deeper : Evaluators) (command : String) (options : Options) (scope : Scope)
    (inherit : Bool) (words : List String) : Eval Outcome :=
  if options.isSet 'a' && options.isSet 'A' then
    return Outcome.complaint command "cannot use -a and -A together" 1
  else
    reportEach (fun word => reportOf Error.report
      (declareOperand deeper command options (declarationOf options scope inherit) word)) words

end ShellExpansion.Builtin
