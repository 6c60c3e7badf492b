import ShellExpansion.Arith.Constant
import ShellExpansion.Arith.Expr
import ShellExpansion.Arith.Token

/-! # Parsing arithmetic expressions

`parse` reads an expression. From loosest to tightest the operators are the comma, assignment and
the conditional `?:` (both grouping to the right), ten levels of left-grouping binary operators
(`binaryLevels`), the power `**` (grouping to the right), the signs and steps in front of an
operand, and the steps behind one. Conditionals, signs and parentheses may be nested
`maxNesting` deep. A subscript is parsed as an expression of its own, with a fresh allowance; one
that is no expression is kept as text. -/

namespace ShellExpansion.Arith

/-- A parser takes tokens off the front of a list. -/
abbrev Parser := StateT (List Token) (Except Fault)

/-- How deep conditionals, signs and parentheses may be nested. -/
def maxNesting : Nat := 64

/-- The binary operators between the conditional and the power, level by level, the loosest level
first. -/
def binaryLevels : List (List BinaryOp) :=
  [[.or], [.and], [.bitOr], [.bitXor], [.bitAnd], [.eq, .ne], [.lt, .gt, .le, .ge],
   [.shiftLeft, .shiftRight], [.add, .sub], [.mul, .div, .mod]]

/-- The binary operators that can be joined with an assignment. -/
def compoundOps : List BinaryOp :=
  [.add, .sub, .mul, .div, .mod, .shiftLeft, .shiftRight, .bitAnd, .bitXor, .bitOr]

/-- The assignment that a symbol means: a plain one, or one that applies an operator first. -/
def assignmentOf? (symbol : String) : Option (Option BinaryOp) :=
  if symbol = "=" then some none
  else (compoundOps.find? fun op => op.symbol ++ "=" = symbol).map some

/-- The text from the next token on, without blanks at its ends. -/
def restAt (text : String) : List Token → String
  | [] => ""
  | token :: _ => String.ofList (Text.stripList (text.toList.drop token.position))

/-- Refuses the expression at the next token. -/
def fail {α : Type} (text : String) (problem : SyntaxProblem) : Parser α := fun tokens =>
  .error (.error (.arithmetic text (.badSyntax problem (restAt text tokens))))

/-- The next token, if it is a symbol. -/
def nextSymbol? : Parser (Option String) := fun tokens =>
  match tokens with
  | ⟨.symbol symbol, _⟩ :: _ => .ok (some symbol, tokens)
  | _ => .ok (none, tokens)

/-- Takes the next token if it is a symbol for which `f` has a value. -/
def takeSymbol? {α : Type} (f : String → Option α) : Parser (Option α) := fun tokens =>
  match tokens with
  | ⟨.symbol symbol, _⟩ :: rest =>
    match f symbol with
    | some a => .ok (some a, rest)
    | none => .ok (none, tokens)
  | _ => .ok (none, tokens)

/-- Takes the next token if it is the given symbol, and says whether it was. -/
def takeIf (symbol : String) : Parser Bool := do
  return (← takeSymbol? fun found => if found = symbol then some () else none).isSome

/-- Takes the given symbol, which must come next. -/
def expect (text symbol : String) : Parser Unit := do
  unless ← takeIf symbol do fail text (.expected symbol)

/-- The operator of a list that is written with the symbol. -/
def operatorOf? (ops : List BinaryOp) (symbol : String) : Option BinaryOp :=
  ops.find? (·.symbol = symbol)

/-- Reads operators of a level and their right operands for as long as they come, up to a number
of them, and groups them to the left. -/
def moreOperands (ops : List BinaryOp) (operand : Parser Expr) : Nat → Expr → Parser Expr
  | 0, left => return left
  | count + 1, left => do
    match ← takeSymbol? (operatorOf? ops) with
    | none => return left
    | some op =>
      let right ← operand
      moreOperands ops operand count (.binary op left right)

/-- Reads operands with operators of one level between them. -/
def level (ops : List BinaryOp) (operand : Parser Expr) : Parser Expr := do
  let first ← operand
  moreOperands ops operand (← get).length first

/-- Reads operands with the power operator between them, at most the given number of operators,
and groups them to the right. -/
def powers (operand : Parser Expr) : Nat → Parser Expr
  | 0 => operand
  | count + 1 => do
    let base ← operand
    if ← takeIf BinaryOp.pow.symbol then
      return .binary .pow base (← powers operand count)
    else return base

/-- Reads operands of binary operators of all levels. -/
def binary (operand : Parser Expr) : Parser Expr := do
  let tokens ← get
  binaryLevels.foldr level (powers operand tokens.length)

/-- Reads a conditional expression and the assignments to its right, at most the given number. -/
def assignments (text : String) (conditional : Parser Expr) : Nat → Parser Expr
  | 0 => conditional
  | count + 1 => do
    match ← conditional with
    | .read target =>
      match ← takeSymbol? assignmentOf? with
      | some op => return .assign op target (← assignments text conditional count)
      | none => return .read target
    | node =>
      if ((← nextSymbol?).bind assignmentOf?).isSome then fail text .notAssignable
      else return node

/-- Reads an assignment or a conditional expression. -/
def assignment (text : String) (conditional : Parser Expr) : Parser Expr := do
  assignments text conditional (← get).length

/-- Reads expressions with commas between them. -/
def commas (text : String) (conditional : Parser Expr) : Parser Expr :=
  level [.comma] (assignment text conditional)

/-- The symbols of the operators with one operand. -/
def unaryOf? (symbol : String) : Option UnaryOp :=
  [UnaryOp.neg, .plus, .not, .complement].find? (·.symbol = symbol)

/-- The symbols of the steps. -/
def stepOf? (symbol : String) : Option StepOp :=
  [StepOp.increment, .decrement].find? (·.symbol = symbol)

/-- Reads a constant, a variable, an element, a parameter or an expression in parentheses. -/
def primary (text : String) (index : String → Except Fault Expr) (conditional : Parser Expr) :
    Parser Expr := do
  match ← get with
  | ⟨.number number, _⟩ :: rest =>
    set rest
    return .number (← constant text number)
  | ⟨.name name none, _⟩ :: rest =>
    set rest
    return .read (.variable name)
  | ⟨.name name (some subscript), _⟩ :: rest =>
    set rest
    match index subscript with
    | .ok inner => return .read (.element name inner subscript)
    | .error (.error (.arithmetic _ _)) => return .read (.keyed name subscript)
    | .error fault => throw fault
  | ⟨.parameter parameter, _⟩ :: rest =>
    set rest
    return .parameter parameter
  | _ =>
    if ← takeIf "(" then
      let inner ← commas text conditional
      expect text ")"
      return .group inner
    else fail text .operandExpected

/-- Reads a primary and a step behind it. -/
def postfixed (operand : Parser Expr) : Parser Expr := do
  match ← operand with
  | .read target =>
    match ← takeSymbol? stepOf? with
    | some op => return .postStep op target
    | none => return .read target
  | node => return node

mutual

/-- Reads a conditional expression, nested at most the given number of levels. -/
def conditional (text : String) (index : String → Except Fault Expr) : Nat → Parser Expr
  | 0 => fail text .tooNested
  | nesting + 1 => do
    let condition ← binary (signed text index nesting)
    if ← takeIf "?" then
      let consequent ← assignment text (conditional text index nesting)
      expect text ":"
      return .ternary condition consequent (← conditional text index nesting)
    else return condition

/-- Reads an operand with its signs and steps, nested at most the given number of levels. -/
def signed (text : String) (index : String → Except Fault Expr) : Nat → Parser Expr
  | 0 => fail text .tooNested
  | nesting + 1 => do
    match ← takeSymbol? stepOf? with
    | some op =>
      match ← signed text index nesting with
      | .read target => return .preStep op target
      | _ => fail text .operandExpected
    | none =>
      match ← takeSymbol? unaryOf? with
      | some op => return .unary op (← signed text index nesting)
      | none => postfixed (primary text index (conditional text index nesting))

end

/-- Reads an expression that takes up all tokens; a text without tokens means zero. -/
def whole (text : String) (index : String → Except Fault Expr) : Parser Expr := do
  if (← get).isEmpty then return .number 0
  else
    let node ← commas text (conditional text index maxNesting)
    if (← get).isEmpty then return node else fail text .trailingText

/-- Parses a text whose subscripts are nested at most the given number of levels. -/
def parseNested : Nat → String → Except Fault Expr
  | 0, text => .error (.error (.arithmetic text .badSubscript))
  | nesting + 1, text => do
    let tokens ← (tokenize text).mapError Fault.error
    (whole text (parseNested nesting)).run' tokens

/-- Parses an arithmetic expression. -/
def parse (text : String) : Except Fault Expr :=
  parseNested (text.length + 1) text

end ShellExpansion.Arith
