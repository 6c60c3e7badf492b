import ShellExpansion.Eval.Word

/-! # Case selection

A case statement chooses bodies to run by matching a word against the patterns of its clauses.
The text that ends a clause says how selection goes on behind its body. The word is expanded once,
each pattern when its turn comes. -/

namespace ShellExpansion

/-- The text that ends a clause of a case statement. Behind `;&` the next body runs too, its
patterns unseen, behind `;;&` the patterns of the later clauses are tried, and behind any other
text, which is `;;` as a rule, no further body runs. -/
structure Terminator where
  ofText ::
  text : String
deriving DecidableEq, Repr

/-- The patterns of a clause of a case statement, and its end. -/
structure CaseClause where
  patterns : List String
  terminator : Terminator
deriving DecidableEq, Repr

namespace Evaluators

/-- A pattern word matches the whole text. -/
def matchesWord (deeper : Evaluators) (text pattern : String) : Eval Bool :=
  return Glob.isMatch (← deeper.expandWord .pattern pattern) text

/-- One of the pattern words matches the whole text; those behind it are not expanded. -/
def matchesAny (deeper : Evaluators) (text : String) : List String → Eval Bool
  | [] => return false
  | pattern :: rest => do
    if ← deeper.matchesWord text pattern then return true else matchesAny deeper text rest

/-- The indices of the clauses whose bodies run; the first clause has the given index, and its body
runs unseen when `falling`. Selection ends at the body that makes them as many as `count`, so a
count of zero, which no body does, bounds nothing. -/
def selectFrom (deeper : Evaluators) (text : String) (index : Nat) (falling : Bool)
    (count : Option Nat) : List CaseClause → Eval (List Nat)
  | [] => return []
  | clause :: rest => do
    let chosen ← if falling then pure true else deeper.matchesAny text clause.patterns
    if chosen then
      if count = some 1 then return [index]
      else
        let count := count.map (· - 1)
        let later ←
          if clause.terminator.text = ";&" then selectFrom deeper text (index + 1) true count rest
          else if clause.terminator.text = ";;&" then
            selectFrom deeper text (index + 1) false count rest
          else pure []
        return index :: later
    else selectFrom deeper text (index + 1) false count rest

/-- The indices of the clauses whose bodies run for a word, ended by `count` if one above zero is
given. -/
def selectBodies (deeper : Evaluators) (word : String) (clauses : List CaseClause)
    (count : Option Nat) : Eval (List Nat) := do
  deeper.selectFrom (← deeper.expandWord .text word) 0 false count clauses

end Evaluators

end ShellExpansion
