import ShellExpansion.Arith.Parser
import ShellExpansion.Brace
import ShellExpansion.Parameter.Parser
import ShellExpansion.Session.Reply

/-! # Questions about texts

A `Query` is a question about texts alone, which no shell is needed to answer: what a text parses
to, how it is quoted or split, and where a pattern matches in it (`Query.answer`). Numbers in an
answer are decimal texts, and so have a bounded number of digits (`checkWritable`). -/

namespace ShellExpansion

/-- A question about texts. -/
inductive Query
  | parseParameter (text : String)
  | parseExpression (text : String)
  | tokenize (text : String)
  /-- The value of a constant; the source is what errors show, if it is not empty. -/
  | constant (text source : String)
  | parseLiteral (text : String)
  | fields (text : String)
  | splitSubscript (text : String)
  | unquote (text : String)
  /-- Where the delimiter stands that closes a bracket opened just before `start`. -/
  | closing (text : String) (start : Nat) (opener closer : Char)
  | braces (text : String)
  | isIdentifier (text : String)
  | singleQuote (text : String)
  | escapePattern (text : String)
  | isMatch (pattern text : String)
  | prefixSpan (pattern text : String) (greedy : Bool)
  | suffixSpan (pattern text : String) (greedy : Bool)
  | search (pattern text : String) (start : Nat)
  | searchAll (pattern text : String)
  | replace (occurrence : Glob.Occurrence) (pattern replacement text : String)
deriving DecidableEq, Repr

namespace Query

/-- The position in a text of the delimiter that closes a bracket opened just before `start`. -/
def closingPosition? (text : String) (start : Nat) (opener closer : Char) : Option Nat :=
  (Lexical.splitClosing? opener closer (text.toList.drop start)).map fun parts =>
    start + parts.1.length

/-- The answer to a question. -/
def answer : Query → Except Fault Reply
  | parseParameter text => ((Parameter.parse text).mapError .error).map .parameter
  | parseExpression text => do
    let parsed ← Arith.parse text
    checkWritable parsed.numbers
    return .expression parsed
  | tokenize text =>
    ((Arith.tokenize text).mapError .error).map fun tokens => .tokens tokens text.length
  | constant text source => do
    let value ← Arith.constant (if source = "" then text else source) text
    checkWritable [value]
    return .integer value
  | parseLiteral text => .ok (.literal (ArrayLiteral.ofText text))
  | fields text => .ok (.texts (Lexical.fields text))
  | splitSubscript text =>
    let (name, subscript) := ShellExpansion.splitSubscript text
    .ok (.subscripted name subscript)
  | unquote text => .ok (.text (some (Lexical.unquote text)))
  | closing text start opener closer =>
    .ok (.position (closingPosition? text start opener closer))
  | braces text => (Brace.expand text).map .texts
  | isIdentifier text => .ok (.flag (ShellExpansion.isIdentifier text))
  | singleQuote text => .ok (.text (some (Lexical.singleQuote text)))
  | escapePattern text => .ok (.text (some (Glob.escape text)))
  | isMatch pattern text => .ok (.flag (Glob.isMatch pattern text))
  | prefixSpan pattern text greedy => .ok (.span (Glob.prefixSpan? pattern text greedy))
  | suffixSpan pattern text greedy => .ok (.span (Glob.suffixSpan? pattern text greedy))
  | search pattern text start => .ok (.span (Glob.search pattern text start))
  | searchAll pattern text => .ok (.spans (Glob.searchAll pattern text))
  | replace occurrence pattern replacement text =>
    .ok (.text (some (Glob.replace occurrence pattern replacement text)))

end Query

end ShellExpansion
