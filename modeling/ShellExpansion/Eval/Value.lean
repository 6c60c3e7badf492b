import ShellExpansion.Shell

/-! # Integer meaning of texts

`evaluate` is the value of an expression given as text. `valueOf` is the integer that the value of
a variable stands for: a number is read as it is, any other text is evaluated as an expression in
turn, up to a bounded depth, and text that is no expression counts as zero. -/

namespace ShellExpansion.Evaluators

open Eval

/-- The value of an expression given as text. -/
def evaluate (deeper : Evaluators) (text : String) : Eval Int :=
  match Arith.parse text with
  | .ok expr => deeper.expression text expr
  | .error fault => throw fault

/-- A sign, blanks, and a text that begins with a digit, apart from each other. -/
def plainNumber? (text : String) : Option (Bool × String) :=
  let (negative, rest) := match text.toList with
    | '-' :: rest => (true, rest)
    | '+' :: rest => (false, rest)
    | rest => (false, rest)
  match rest.dropWhile Text.isBlank with
  | c :: digits =>
    if c.isDigit && digits.all fun d => d.isAlphanum || d == '#' || d == '@' || d == '_' then
      some (negative, String.ofList (c :: digits))
    else none
  | [] => none

/-- The text that errors show: the source, or the value itself when there is none. -/
def shownSource (source value : String) : String := if source = "" then value else source

/-- The integer that the value of a variable stands for. -/
def valueOf (deeper : Evaluators) (source : String) : Option String → Eval Int
  | none => return 0
  | some text => do
    let value := Text.strip text
    if value = "" then return 0
    else
      let shown := shownSource source value
      match plainNumber? value with
      | some (negative, digits) =>
        match Arith.constant shown digits with
        | .ok n => return Arith.wrap (if negative then -n else n)
        | .error fault => throw fault
      | none =>
        oneDeeper do
          if (← limits).arithmeticDepth < (← get).arithDepth then
            refuse (.arithmetic shown .recursionTooDeep)
          else
            match Arith.parse value with
            | .ok expr => deeper.expression shown expr
            | .error (.error (.arithmetic _ _)) => return 0
            | .error fault => throw fault

end ShellExpansion.Evaluators
