import ShellExpansion.Arith.Parser
import ShellExpansion.Store.Declare

/-! # The state of a shell, and evaluations

A `Shell` is a store together with the options and counters that expansions look at. An
evaluation (`Eval`) runs against a shell and gives a result or a fault; what it changed before a
fault stays changed. Words and expressions are evaluated inside each other, so each evaluator is
given the evaluators of the next nesting level (`Evaluators`). -/

namespace ShellExpansion

/-- The state that expansions read and change. -/
structure Shell where
  store : Store
  /-- Reading an unset parameter is an error. -/
  nounset : Bool
  /-- The value of `$0`. -/
  scriptName : String
  /-- How many values of variables are being evaluated as expressions, inside one another. -/
  arithDepth : Nat
deriving DecidableEq, Repr

/-- A computation on a shell. -/
abbrev Eval := ExceptT Fault (StateM Shell)

namespace Eval

/-- Ends the evaluation with an error. -/
def refuse {α : Type} (e : Error) : Eval α := throw (.error e)

/-- Ends the evaluation with an error whose text shows a number. -/
def refuseShowing {α : Type} (n : Int) (e : Error) : Eval α := do
  ofExcept (checkWritable [n])
  refuse e

/-- The store as it is now. -/
def store : Eval Store := return (← get).store

/-- Replaces the store. -/
def setStore (store : Store) : Eval Unit := modify fun shell => { shell with store := store }

/-- The bounds that hold in the shell. -/
def limits : Eval Limits := return (← store).limits

/-- An answer of the store. -/
def query {α : Type} (f : Store → Except Error α) : Eval α := do
  match f (← store) with
  | .ok a => return a
  | .error e => refuse e

/-- A change of the store, which is not made when it is refused. -/
def change {α : Type} (f : Store → Except Error (α × Store)) : Eval α := do
  match f (← store) with
  | .ok (a, store) =>
    setStore store
    return a
  | .error e => refuse e

/-- A change of the store that may be made in part when it fails. -/
def partialChange {α : Type} (f : Store → Except Fault α × Store) : Eval α := do
  let (result, store) := f (← store)
  setStore store
  match result with
  | .ok a => return a
  | .error fault => throw fault

/-- Runs an evaluation one level deeper in the values of variables; the level is left again
whether it succeeds or fails. -/
def oneDeeper {α : Type} (action : Eval α) : Eval α := fun shell =>
  let (result, shell) := action { shell with arithDepth := shell.arithDepth + 1 }
  (result, { shell with arithDepth := shell.arithDepth - 1 })

end Eval

/-- How the result of a word is used. -/
inductive WordMode
  /-- As text. -/
  | text
  /-- As a pattern: what is quoted matches only itself. -/
  | pattern
deriving DecidableEq, Repr

/-- The evaluators of the next nesting level. -/
structure Evaluators where
  /-- Expands a word. -/
  word : WordMode → String → Eval String
  /-- Evaluates an expression; errors show the given source text. -/
  expression : String → Arith.Expr → Eval Int

namespace Evaluators

/-- The evaluators beyond the last nesting level. -/
def exhausted : Evaluators where
  word _ _ := throw .nestingExhausted
  expression _ _ := throw .nestingExhausted

end Evaluators

end ShellExpansion
