import ShellExpansion.Builtin.Command
import ShellExpansion.Eval.Selection
import ShellExpansion.Session.Query

/-! # Actions on a shell

An `Action` is one thing to do with a shell: an expansion, an evaluation, an assignment, a
command, or an operation on its variables or frames. `Action.run` carries it out. -/

namespace ShellExpansion

/-- One thing to do with a shell. -/
inductive Action
  | ask (query : Query)
  -- Expansions
  | expand (text : String)
  | word (mode : WordMode) (text : String)
  | braces (text : String)
  | arithmetic (text : String)
  /-- The value of a parsed expression; its errors show no source. -/
  | expression (text : String)
  /-- The integer that the value of a variable stands for. -/
  | valueOf (value : Option String) (source : String)
  | isMatch (pattern text : String)
  | select (subject : String) (clauses : List CaseClause) (count : Option Nat)
  -- Variables, as scripts name them
  | assign (target value : String) (scope : Scope) (append : Bool)
  | get (target : String)
  | erase (name : String) (keepTarget : Bool)
  | exported
  | command (builtin : Builtin.Command) (words : List String)
  -- The store
  | dump
  | push (name : String) (args : List String)
  | pop
  | depth
  | lookup (name : String)
  | resolve (name : String)
  | isSet (name : String)
  | names
  | positional (index : Int)
  | setPositional (args : List String)
  | store (name value : String) (scope : Scope) (append : Bool)
  | declare (name : String) (request : Store.Declaration)
  | setReference (name target : String) (scope : Scope)
  -- Arrays
  | elementKey (name subscript : String)
  | getElement (name : String) (key : Key)
  | setElement (name : String) (key : Key) (value : String) (append : Bool) (scope : Scope)
  | unsetElement (name : String) (key : Key)
  | allValues (name : String)
  | allKeys (name : String)
  | length (name : String)
  | slice (name : String) (start : Int) (count : Option Int)
  | assignLiteral (name : String) (literal : ArrayLiteral) (scope : Scope) (append : Bool)
  | appendLiteral (name : String) (values : List String) (overrides : List (String × String))
deriving DecidableEq, Repr

namespace Action

open Eval

/-- The binding at a place, as a reply. -/
def bindingAt (place : Store.Place) : Eval Reply :=
  return .binding place.name ((← Eval.store).at? place)

/-- The value of a variable or element; an unset one has none. -/
def valueAt (deeper : Evaluators) (target : String) : Eval (Option String) := do
  match splitSubscript target with
  | (_, none) => query (·.get? target)
  | (name, some subscript) => getElement? name (← deeper.elementKey name subscript)

/-- The words that a raw word expands to, brace expansion first. A word that is empty before it is
expanded is dropped. -/
def expandBraces (deeper : Evaluators) (text : String) : Eval (List String) := do
  ((← ofExcept (Brace.expand text)).filter (· ≠ "")).mapM (deeper.expandWord .text)

/-- Carries out an action with the evaluators of the outermost nesting level. -/
def perform (deeper : Evaluators) : Action → Eval Reply
  | ask question => ofExcept question.answer
  | expand text => return .texts (← deeper.expand text)
  | word mode text => return .text (some (← deeper.expandWord mode text))
  | braces text => return .texts (← expandBraces deeper text)
  | arithmetic text => return .integer (← deeper.evaluate text)
  | expression text => do
    let parsed ← ofExcept (Arith.parse text)
    return .integer (← deeper.expression "" parsed)
  | valueOf value source => return .integer (← deeper.valueOf source value)
  | isMatch pattern text => return .flag (← deeper.matchesWord text pattern)
  | select subject clauses count =>
    return .counts (← deeper.selectBodies subject clauses count)
  | assign target value scope append => do bindingAt (← deeper.assign target value scope append)
  | get target => return .text (← valueAt deeper target)
  | erase name keepTarget => return .flag (← change (·.erase name keepTarget))
  | exported => return .environment (← query Store.exported)
  | command builtin words => return .outcome (← builtin.run deeper words)
  | dump => return .shell (← MonadState.get)
  | push name args => do
    change fun s => (s.push name args).map ((), ·)
    return .frame (← Eval.store).current
  | pop => do
    match (← Eval.store).pop? with
    | some (frame, rest) =>
      setStore rest
      return .frame frame
    | none => throw .outermostFrame
  | depth => return .count (← Eval.store).depth
  | lookup name => return .binding name ((← Eval.store).lookup name)
  | resolve name => do
    let (final, found) ← query (·.resolve name)
    return .resolved final found
  | isSet name => return .flag (← query (·.get? name)).isSome
  | names => return .texts (← Eval.store).names
  | positional index => return .text ((← Eval.store).getPositional? index)
  | setPositional args => do
    setStore ((← Eval.store).setPositional args)
    return .nothing
  | store name value scope append => do bindingAt (← change (·.assign name value scope append))
  | declare name request => do bindingAt (← partialChange (·.declare name request))
  | setReference name target scope => do
    bindingAt (← partialChange (·.setReference name target scope))
  | elementKey name subscript => return .key (← deeper.elementKey name subscript)
  | getElement name key => return .text (← getElement? name key)
  | setElement name key value append scope => do
    bindingAt (← deeper.setElement name key value append scope)
  | unsetElement name key => return .flag (← Eval.unsetElement name key)
  | allValues name => return .texts (← Eval.allValues name)
  | allKeys name => return .texts (← Eval.allKeys name)
  | length name => return .count (← countElements name)
  | slice name start count => return .texts (← Eval.slice name start count)
  | assignLiteral name literal scope append => do
    bindingAt (← deeper.assignLiteral name literal scope append)
  | appendLiteral name values overrides => do
    bindingAt (← deeper.appendLiteral name values (Table.ofList overrides))

/-- The numbers that an action is given. -/
def numbers : Action → List Int
  | positional index => [index]
  | getElement _ key => key.numbers
  | setElement _ key _ _ _ => key.numbers
  | unsetElement _ key => key.numbers
  | slice _ start count => start :: count.toList
  | _ => []

/-- Carries out an action. The numbers that it is given are decimal texts, too. -/
def run (action : Action) : Eval Reply := do
  ofExcept (checkWritable action.numbers)
  action.perform (evaluators (← limits).nesting)

end Action

end ShellExpansion
