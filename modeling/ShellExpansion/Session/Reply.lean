import ShellExpansion.ArrayLiteral
import ShellExpansion.Arith.Token
import ShellExpansion.Builtin.Options
import ShellExpansion.Eval.Element
import ShellExpansion.Parameter.Basic

/-! # Replies

A `Reply` is what a successful step of a session gives, with the data of its kind as they are:
spans, tokens, trees, bindings, frames and whole shells. -/

namespace ShellExpansion

/-- What a step gives. -/
inductive Reply
  | nothing
  | flag (value : Bool)
  | count (n : Nat)
  | integer (n : Int)
  | text (value : Option String)
  | texts (values : List String)
  | position (index : Option Nat)
  | counts (indices : List Nat)
  | span (found : Option Glob.Span)
  | spans (found : List Glob.Span)
  | subscripted (name : String) (subscript : Option String)
  | parameter (parsed : Parameter)
  | expression (parsed : Arith.Expr)
  /-- The tokens of a text, and the position of its end. -/
  | tokens (tokens : List Arith.Token) (stop : Nat)
  | literal (parsed : ArrayLiteral)
  | key (key : Key)
  | binding (name : String) (found : Option Binding)
  /-- The last name of a chain of references, and its binding. -/
  | resolved (name : String) (found : Option Binding)
  | frame (frame : Frame)
  | environment (entries : List (String × String))
  | outcome (outcome : Builtin.Outcome)
  | shell (state : Shell)

end ShellExpansion
