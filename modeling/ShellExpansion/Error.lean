import ShellExpansion.Text.Numeral

/-! # Errors

`Error` lists the causes for which an expansion, an evaluation or a write is refused, each with
the data that its text shows; `Error.message` is the one place where the texts are written. A
`Fault` is anything that ends an operation: an error, or one of the few conditions that carry no
text. A number that is written must not be too long (`checkWritable`), also in the text of an
error. -/

namespace ShellExpansion

/-- What the parser of arithmetic expressions found wrong at a token. -/
inductive SyntaxProblem
  | trailingText
  | expected (symbol : String)
  | tooNested
  | notAssignable
  | operandExpected
deriving DecidableEq, Repr

namespace SyntaxProblem

/-- The text of the problem, without the place. -/
def message : SyntaxProblem → String
  | trailingText => "syntax error in expression"
  | expected symbol => "\x60" ++ symbol ++ "' expected"
  | tooNested => "expression recursion level exceeded"
  | notAssignable => "attempted assignment to non-variable"
  | operandExpected => "syntax error: operand expected"

end SyntaxProblem

/-- Why an arithmetic expression has no value. -/
inductive ArithProblem
  | invalidNumber
  | invalidBase
  | digitTooGreat (digits : String)
  | invalidOperator (rest : String)
  | badSubscript
  | unterminatedExpansion
  | badSubstitution
  | badSyntax (problem : SyntaxProblem) (rest : String)
  | recursionTooDeep
  | negativeExponent
  | divisionByZero
deriving DecidableEq, Repr

namespace ArithProblem

/-- Marks the place of a problem by the text that follows it. -/
def atToken (reason rest : String) : String := reason ++ " (error token is \"" ++ rest ++ "\")"

/-- The text of the problem, without the expression. -/
def message : ArithProblem → String
  | invalidNumber => "invalid number"
  | invalidBase => "invalid arithmetic base"
  | digitTooGreat digits => atToken "value too great for base" digits
  | invalidOperator rest => atToken "syntax error: invalid arithmetic operator" rest
  | badSubscript => "bad array subscript"
  | unterminatedExpansion => "unterminated arithmetic expansion"
  | badSubstitution => "bad substitution"
  | badSyntax problem rest =>
    if rest = "" then problem.message else atToken problem.message rest
  | recursionTooDeep => "expression recursion level exceeded"
  | negativeExponent => "exponent less than 0"
  | divisionByZero => "division by 0"

end ArithProblem

/-- Why a parameter expansion or a subscript makes no sense. -/
inductive SubstitutionProblem
  /-- The inside of the braces does not parse. -/
  | malformed (content : String)
  /-- The opening brace is never closed; `rest` starts at its dollar sign. -/
  | unclosed (rest : String)
  /-- The value of an indirect parameter names no parameter. -/
  | invalidIndirect (value : String)
  /-- A default cannot be assigned to this parameter. -/
  | notAssignable (parameter : String)
  /-- A length that must not be negative is. -/
  | negativeLength (length : Int)
  /-- The subscript of an indexed array is blank. -/
  | blankSubscript (name subscript : String)
  /-- An item of a literal for an associative array has no key although others have one. -/
  | missingKey (name value : String)
deriving DecidableEq, Repr

namespace SubstitutionProblem

/-- The text of the problem. -/
def message : SubstitutionProblem → String
  | malformed content => "$\x7b" ++ content ++ "\x7d: bad substitution"
  | unclosed rest => rest ++ ": bad substitution"
  | invalidIndirect value => value ++ ": invalid variable name"
  | notAssignable parameter => "$" ++ parameter ++ ": cannot assign in this way"
  | negativeLength length => toString length ++ ": substring expression < 0"
  | blankSubscript name subscript => name ++ "[" ++ subscript ++ "]: bad array subscript"
  | missingKey name value =>
    name ++ ": " ++ value ++ ": must use subscript when assigning associative array"

end SubstitutionProblem

/-- Why the attributes asked for cannot stand on one variable. -/
inductive AttributeConflict
  | referenceIsNoArray
  | associativeToIndexed
  | indexedToAssociative
deriving DecidableEq, Repr

namespace AttributeConflict

/-- The text of the conflict, without the variable. -/
def message : AttributeConflict → String
  | referenceIsNoArray => "reference variable cannot be an array"
  | associativeToIndexed => "cannot convert associative to indexed array"
  | indexedToAssociative => "cannot convert indexed to associative array"

end AttributeConflict

/-- A bound on the work of the shell that was exceeded. -/
inductive LimitExceeded
  | callDepth (function : String) (limit : Int)
  | referenceDepth (name : String)
  | stringLength (actual : Nat) (limit : Int)
deriving DecidableEq, Repr

namespace LimitExceeded

/-- The text that names the bound. -/
def message : LimitExceeded → String
  | callDepth function limit =>
    function ++ ": maximum function nesting level exceeded (" ++ toString limit ++ ")"
  | referenceDepth name => name ++ ": nameref chain too long"
  | stringLength actual limit =>
    "expansion result too long (" ++ toString actual ++ " > " ++ toString limit ++ ")"

end LimitExceeded

/-- The causes for which an operation on the shell is refused. -/
inductive Error
  /-- An unset parameter is read while unset parameters are errors. -/
  | unboundVariable (parameter : String)
  /-- A parameter that must be set is not; an empty message stands for the usual text. -/
  | parameterMissing (parameter message : String)
  | readonlyVariable (name : String)
  | negativeIndex (name : String) (index : Int)
  | referenceCycle (name : String)
  | arithmetic (expression : String) (problem : ArithProblem)
  | attributes (name : String) (conflict : AttributeConflict)
  /-- The text is no name of a variable; `command` is the command that says so, if one does. -/
  | invalidIdentifier (text : String) (command : Option String)
  | substitution (problem : SubstitutionProblem)
  | limit (exceeded : LimitExceeded)
deriving DecidableEq, Repr

namespace Error

/-- The text of an error. -/
def message : Error → String
  | unboundVariable parameter => parameter ++ ": unbound variable"
  | parameterMissing parameter message =>
    parameter ++ ": " ++ if message = "" then "parameter null or not set" else message
  | readonlyVariable name => name ++ ": readonly variable"
  | negativeIndex name index => name ++ "[" ++ toString index ++ "]: bad array subscript"
  | referenceCycle name => name ++ ": circular name reference"
  | arithmetic expression problem => expression ++ ": " ++ problem.message
  | attributes name conflict => name ++ ": " ++ conflict.message
  | invalidIdentifier text none => "\x60" ++ text ++ "': not a valid identifier"
  | invalidIdentifier text (some command) =>
    command ++ ": \x60" ++ text ++ "': not a valid identifier"
  | substitution problem => problem.message
  | limit exceeded => exceeded.message

/-- The exit status that an error stands for: 126 when a bound was exceeded, else 1. -/
def exitCode : Error → Nat
  | limit _ => 126
  | _ => 1

/-- The line that a command prints about an error. -/
def report (e : Error) : String := "bash: " ++ e.message ++ "\n"

end Error

/-- What ends an operation before it has a result. -/
inductive Fault
  /-- The operation is refused. -/
  | error (cause : Error)
  /-- A text that must be a number holds a digit without a decimal value, or is no number. -/
  | notANumber
  /-- A number has more decimal digits than can be read or written. -/
  | numberTooLong
  /-- An attribute that is no kind of value was asked for as one. -/
  | notAKind
  /-- The outermost frame was to be removed. -/
  | outermostFrame
  /-- Expansions are nested deeper than the evaluators go. -/
  | nestingExhausted
deriving DecidableEq, Repr

/-- Refuses numbers that are too long to be written. -/
def checkWritable (numbers : List Int) : Except Fault Unit :=
  if numbers.all Text.isWritable then .ok () else .error .numberTooLong

end ShellExpansion
