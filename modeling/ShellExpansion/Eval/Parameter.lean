import ShellExpansion.Eval.Element
import ShellExpansion.Parameter.Parser
import ShellExpansion.Text.LetterCase

/-! # Expanding parameters

A parameter is first read (`Evaluators.reading`): it has one value, or none, or the values of all
elements of an array or of all positional parameters. Then its operation is applied
(`Evaluators.expandParameter`). Operations on texts apply to each of several values; the words of
an operation are expanded when they are needed, once for each value. Results are words: several
values stay several words, unless they are joined by the first character of `IFS`. -/

namespace ShellExpansion

/-- The value or values of a parameter. -/
inductive Reading
  | one (value : Option String)
  /-- Several values, to be joined to one word or not. -/
  | all (values : List String) (joined : Bool)
deriving DecidableEq, Repr

namespace Reading

/-- There is no value. -/
def isUnset : Reading → Bool
  | one value => value.isNone
  | all values _ => values.isEmpty

/-- There is no value, or nothing but empty ones. -/
def isNull : Reading → Bool
  | one value => value.getD "" == ""
  | all values _ => values.all (· == "")

/-- The reading as one text, several values standing in a row with spaces between them. -/
def toText : Reading → String
  | one value => value.getD ""
  | all values _ => " ".intercalate values

end Reading

/-- The parameter that an expansion is of, as it is written, with its reading. -/
structure ReadParameter where
  written : String
  reading : Reading
deriving DecidableEq, Repr

namespace Eval

/-- The text that joins several values: the first character of `IFS`, and a space where that is
unset. -/
def separator : Eval String := do
  match ← query (·.get? "IFS") with
  | none => return " "
  | some text => return String.ofList (text.toList.take 1)

/-- The text, unless it is too long for a result. -/
def limited (text : String) : Eval String := do
  let limit := (← limits).stringLength
  if limit < text.length then refuse (.limit (.stringLength text.length limit))
  else return text

/-- The values as words: one word when they are joined, else a word for each. -/
def words (values : List String) (joined : Bool) : Eval (List String) := do
  if joined then return [← limited ((← separator).intercalate values)]
  else values.mapM limited

/-- The values of a reading as words; no value is the empty text. -/
def currentWords : Reading → Eval (List String)
  | .one value => do return [← limited (value.getD "")]
  | .all values joined => words values joined

/-- Refuses to go on without a value where unset parameters are errors. -/
def checkSet (parameter : ReadParameter) : Eval Unit := do
  match parameter.reading with
  | .one none =>
    if (← get).nounset then refuse (.unboundVariable parameter.written)
  | _ => return ()

/-- The name is a number, or a special parameter that has a value. -/
def isPositional (name : String) : Bool :=
  Text.isDigits name || name == "@" || name == "*" || name == "#"

/-- The positional parameter of a number; number zero is the name of the script. -/
def numbered (name : String) : Eval (Option String) := do
  if name = "0" then return some (← get).scriptName
  else match Text.readNumeral 10 name with
    | some n => return (← store).getPositional? n
    | none => throw .notANumber

end Eval

namespace Evaluators

open Eval

/-! ### Reading -/

/-- Reads a parameter by its name and subscript. -/
def directReading (deeper : Evaluators) (name : String) (subscript : Option String) :
    Eval Reading := do
  if name = "@" ∨ name = "*" then return .all (← store).positional (name = "*")
  else if Text.isDigits name then return .one (← numbered name)
  else if name = "#" then return .one (some (toString (← store).positional.length))
  else if !isIdentifier name then return .one none
  else match subscript with
    | none => return .one (← query (·.get? name))
    | some "@" => return .all (← allValues name) false
    | some "*" => return .all (← allValues name) true
    | some text => return .one (← getElement? name (← deeper.elementKey name text))

/-- Reads a parameter whose value names the one that is meant. A reference names its target. -/
def indirectReading (deeper : Evaluators) (name : String) (subscript : Option String) :
    Eval ReadParameter := do
  match subscript, ((← store).lookup name).map Binding.value with
  | none, some (.reference target) =>
    return ⟨name, .one (if target = "" then none else some target)⟩
  | _, _ =>
    let text := (← deeper.directReading name subscript).toText
    if text = "" then return ⟨withSubscript name subscript, .one none⟩
    else
      let (final, sub) := splitSubscript text
      if isIdentifier final || isPositional final then
        return ⟨withSubscript final sub, ← deeper.directReading final sub⟩
      else refuse (.substitution (.invalidIndirect text))

/-- Reads the parameter of an expansion. -/
def reading (deeper : Evaluators) (parameter : Parameter) : Eval ReadParameter := do
  if parameter.indirect then deeper.indirectReading parameter.name parameter.subscript
  else
    return ⟨parameter.written,
      ← deeper.directReading parameter.name parameter.subscript⟩

/-! ### Operations -/

/-- Applies an operator for missing parameters. -/
def applyMissing (deeper : Evaluators) (action : MissingAction) (checkEmpty : Bool)
    (word : String) (parameter : ReadParameter) : Eval (List String) := do
  let missing := parameter.reading.isUnset || (checkEmpty && parameter.reading.isNull)
  match action with
  | .substitute =>
    if missing then return [← limited (← deeper.word .text word)]
    else currentWords parameter.reading
  | .assign =>
    if missing then
      match parameter.reading with
      | .one _ =>
        if isIdentifier (splitSubscript parameter.written).1 then
          let value ← deeper.word .text word
          discard (deeper.assign parameter.written value .nearest false)
          return [← limited value]
        else refuse (.substitution (.notAssignable parameter.written))
      | .all _ _ => refuse (.substitution (.notAssignable parameter.written))
    else currentWords parameter.reading
  | .require =>
    if missing then
      refuse (.parameterMissing parameter.written (← deeper.word .text word))
    else currentWords parameter.reading
  | .alternative =>
    if missing then return [""] else return [← limited (← deeper.word .text word)]

/-- The script's name and the positional parameters from an offset on, at most `length` of them.
A negative offset counts from the end, and must not reach the script's name. -/
def sliceAll (offset : Int) (length : Option Int) : Eval (List String) := do
  if let some n := length then
    if n < 0 then refuse (.substitution (.negativeLength n))
  let all := (← get).scriptName :: (← store).positional
  let first := if offset < 0 then offset + all.length else offset
  if offset < 0 ∧ first < 1 then return []
  else
    let selected := all.drop first.toNat
    return match length with
      | some n => selected.take n.toNat
      | none => selected

/-- The characters of a text from an offset on. A length that is not negative is a count; a
negative one is the distance of the end from the end of the text, and must not bring it before the
start. -/
def substring (text : String) (offset : Int) (length : Option Int) : Except Error String :=
  let size : Int := text.length
  let start := if offset < 0 then max 0 (size + offset) else offset
  let rest := text.toList.drop start.toNat
  match length with
  | none => .ok (String.ofList rest)
  | some n =>
    if n < 0 then
      if start ≤ size ∧ size + n < start then .error (.substitution (.negativeLength n))
      else .ok (String.ofList (rest.take (size + n - start).toNat))
    else .ok (String.ofList (rest.take n.toNat))

/-- Applies a substring operation. -/
def applySubstring (deeper : Evaluators) (parameter : Parameter) (offset : String)
    (length : Option String) (found : ReadParameter) : Eval (List String) := do
  let start ← deeper.evaluate offset
  let count ← match length with
    | some text => do pure (some (← deeper.evaluate text))
    | none => pure none
  match found.reading with
  | .all _ joined =>
    if (parameter.name = "@" ∨ parameter.name = "*") ∧ !parameter.indirect then
      words (← sliceAll start count) joined
    else words (← slice (splitSubscript found.written).1 start count) joined
  | .one value => return [← query fun _ => substring (value.getD "") start count]

/-- The flags of the variable that a parameter names. -/
def flagsOf? (written : String) : Eval (Option String) := do
  let name := (splitSubscript written).1
  if isIdentifier name then return (← query (·.binding? name)).map Binding.flags
  else return none

/-- Applies a transformation to a value of a parameter. -/
def applyTransform (transform : Transform) (written value : String) : Eval String := do
  match transform with
  | .quote => return Lexical.singleQuote value
  | .upper => return Text.upper value
  | .lower => return Text.lower value
  | .capitalize => return Text.capitalize value
  | .attributes => return (← flagsOf? written).getD ""
  | .assignment =>
    match ← flagsOf? written with
    | none => return ""
    | some flags =>
      let shown := flags.toList.filter fun c => c ≠ 'a' && c ≠ 'A'
      let statement := (splitSubscript written).1 ++ "=" ++ Lexical.singleQuote value
      return if shown.isEmpty then statement
        else "declare -" ++ String.ofList shown ++ " " ++ statement

/-- The text with the case changed of each character that the pattern matches, or of the first
character alone. -/
def changeCase (letterCase : LetterCase) (all : Bool) (pattern text : String) : String :=
  let elements := Glob.elements pattern.toList
  let change (c : Char) : List Char :=
    if Glob.matchesList elements [c] then
      match letterCase with
      | .upper => Text.upperChar c
      | .lower => Text.lowerChar c
    else [c]
  match text.toList with
  | [] => ""
  | c :: rest => String.ofList (change c ++ if all then rest.flatMap change else rest)

/-- Applies an operation on texts to a value of a parameter. -/
def applyToText (deeper : Evaluators) (operation : Option Operation) (written value : String) :
    Eval String := do
  match operation with
  | some (.remove side greedy pattern) =>
    let pattern ← deeper.word .pattern pattern
    return match side with
      | .front => Glob.removePrefix pattern value greedy
      | .back => Glob.removeSuffix pattern value greedy
  | some (.replace occurrence pattern replacement) =>
    let pattern ← deeper.word .pattern pattern
    let replacement ← deeper.word .text replacement
    return Glob.replace occurrence pattern replacement value
  | some (.changeCase letterCase all pattern) =>
    let pattern ← if pattern = "" then pure "?" else deeper.word .pattern pattern
    return changeCase letterCase all pattern value
  | some (.transform transform) => applyTransform transform written value
  | _ => return value

/-- The transformation gives nothing for a parameter without a value. -/
def needsValue : Option Operation → Bool
  | some (.transform .quote) => true
  | some (.transform .assignment) => true
  | _ => false

/-- Expands a parameter to its words. -/
def expandParameter (deeper : Evaluators) (parameter : Parameter) : Eval (List String) := do
  match parameter.operation with
  | some (.names joined) =>
    let names := (← store).names.filter fun name => parameter.name.toList.isPrefixOf name.toList
    words names joined
  | some (.keys joined) => words (← allKeys parameter.name) joined
  | operation =>
    let found ← deeper.reading parameter
    match operation with
    | some (.missing action checkEmpty word) => deeper.applyMissing action checkEmpty word found
    | _ =>
      match operation, found.reading with
      | some .length, .all values _ => return [toString values.length]
      | some .length, .one value =>
        checkSet found
        return [toString (value.getD "").length]
      | some (.substring offset length), _ =>
        checkSet found
        deeper.applySubstring parameter offset length found
      | _, .all values joined =>
        words (← values.mapM (deeper.applyToText operation found.written)) joined
      | _, .one value =>
        checkSet found
        if value.isNone && needsValue operation then return [""]
        else return [← limited (← deeper.applyToText operation found.written (value.getD ""))]

/-- Expands a parameter to one text, its words standing in a row. -/
def expandToText (deeper : Evaluators) (parameter : Parameter) : Eval String :=
  return " ".intercalate (← deeper.expandParameter parameter)

end Evaluators

end ShellExpansion
