import ShellExpansion.Arith.Constant
import ShellExpansion.Arith.Expr
import ShellExpansion.Arith.Operator
import ShellExpansion.Arith.Parser
import ShellExpansion.Arith.Token
import ShellExpansion.ArrayLiteral
import ShellExpansion.Brace
import ShellExpansion.Builtin.Command
import ShellExpansion.Builtin.Declaration
import ShellExpansion.Builtin.Listing
import ShellExpansion.Builtin.Options
import ShellExpansion.Error
import ShellExpansion.Eval.Element
import ShellExpansion.Eval.Expression
import ShellExpansion.Eval.Parameter
import ShellExpansion.Eval.Selection
import ShellExpansion.Eval.Value
import ShellExpansion.Eval.Word
import ShellExpansion.Glob.Pattern
import ShellExpansion.Glob.Replace
import ShellExpansion.Glob.Search
import ShellExpansion.Identifier
import ShellExpansion.IndexedArray
import ShellExpansion.Lexical.Closing
import ShellExpansion.Lexical.Field
import ShellExpansion.Lexical.Quote
import ShellExpansion.Lexical.Segment
import ShellExpansion.Parameter.Basic
import ShellExpansion.Parameter.Parser
import ShellExpansion.Session.Action
import ShellExpansion.Session.Basic
import ShellExpansion.Session.Query
import ShellExpansion.Session.Reply
import ShellExpansion.Shell
import ShellExpansion.Store.Basic
import ShellExpansion.Store.Binding
import ShellExpansion.Store.Declare
import ShellExpansion.Store.Reference
import ShellExpansion.Table
import ShellExpansion.Text.Alphabet
import ShellExpansion.Text.Alphabet.Table
import ShellExpansion.Text.Blank
import ShellExpansion.Text.LetterCase
import ShellExpansion.Text.LetterCase.Table
import ShellExpansion.Text.Numeral
import ShellExpansion.Word
import ShellExpansion.Proofs.Except
import ShellExpansion.Proofs.Glob.Grammar
import ShellExpansion.Proofs.Glob.Matching
import ShellExpansion.Proofs.Glob.Backtracking
import ShellExpansion.Proofs.Glob.Searching
import ShellExpansion.Proofs.Glob.Tiling
import ShellExpansion.Proofs.Glob.Literal
import ShellExpansion.Proofs.Glob.Replacing
import ShellExpansion.Proofs.Lexical.Closing
import ShellExpansion.Proofs.Lexical.Segment
import ShellExpansion.Proofs.Word.Pieces
import ShellExpansion.Proofs.Brace.Word
import ShellExpansion.Proofs.Brace.Expansion
import ShellExpansion.Proofs.Arith.Constant
import ShellExpansion.Proofs.Arith.Grammar
import ShellExpansion.Proofs.Arith.Printing
import ShellExpansion.Proofs.Text.Alphabet
import ShellExpansion.Proofs.Arith.Tokenizing
import ShellExpansion.Proofs.Arith.Chain
import ShellExpansion.Proofs.Arith.Reading
import ShellExpansion.Proofs.Arith.RoundTrip
import ShellExpansion.Proofs.Arith.Soundness
import ShellExpansion.Proofs.Store.Frames
import ShellExpansion.Proofs.Store.Resolution
import ShellExpansion.Proofs.Store.Assignment
import ShellExpansion.Proofs.Store.Writes
import ShellExpansion.Proofs.Store.Changes
import ShellExpansion.Proofs.Store.ReadOnly
import ShellExpansion.Proofs.Store.Lasting
import ShellExpansion.Proofs.Store.Atomic
import ShellExpansion.Proofs.Store.Local
import ShellExpansion.Proofs.Store.SelfReference
import ShellExpansion.Proofs.Store.WellFormed
import ShellExpansion.Proofs.Eval.Running
import ShellExpansion.Proofs.Eval.Transparency
import ShellExpansion.Proofs.Eval.Respects
import ShellExpansion.Proofs.Eval.Reading
import ShellExpansion.Proofs.Eval.Evaluators
import ShellExpansion.Proofs.Eval.Writes
import ShellExpansion.Proofs.Session.Changes
import ShellExpansion.Proofs.Session.States
import ShellExpansion.Proofs.Session.ReadOnly
import ShellExpansion.Proofs.Eval.Guards
import ShellExpansion.Proofs.Eval.Loosening
import ShellExpansion.Proofs.Session.Guards
import ShellExpansion.Proofs.Lexical.Quote
import ShellExpansion.Proofs.Session.Quote
import ShellExpansion.Proofs.Eval.Listing
import ShellExpansion.Proofs.Lexical.Literal
import ShellExpansion.Proofs.Session.Listing
import ShellExpansion.Proofs.Lexical.Field
import ShellExpansion.Proofs.Lexical.Subscript
import ShellExpansion.Proofs.Eval.Entries
import ShellExpansion.Proofs.Builtin.Declaration
import ShellExpansion.Proofs.Session.Assignments
import ShellExpansion.Proofs.Session.Declaration
import ShellExpansion.Proofs.Parameter.Key
import ShellExpansion.Proofs.Parameter.Name
import ShellExpansion.Proofs.Session.Key
import ShellExpansion.Proofs.Session.Shown
import ShellExpansion.Proofs.Session.WellFormed
import ShellExpansion.Proofs.Session.SelfReference
import ShellExpansion.Proofs.Session.Keeping
import ShellExpansion.Proofs.Session.Release
import ShellExpansion.Proofs.Arith.Range
import ShellExpansion.Proofs.Eval.Range
import ShellExpansion.Proofs.Eval.Cell
import ShellExpansion.Proofs.Session.Lone
import ShellExpansion.Proofs.Arith.Nesting
import ShellExpansion.Proofs.Arith.Element
import ShellExpansion.Proofs.Eval.Literal
import ShellExpansion.Proofs.Session.Element
import ShellExpansion.Proofs.Session.Local
import ShellExpansion.Proofs.Eval.Bounded
import ShellExpansion.Proofs.Session.Bounded
import ShellExpansion.Proofs.Store.Indices
import ShellExpansion.Proofs.Eval.Counting
import ShellExpansion.Proofs.Session.Counting
import ShellExpansion.Proofs.Arith.TwosComplement
import ShellExpansion.Proofs.Eval.Indirect
import ShellExpansion.Proofs.Eval.Default
import ShellExpansion.Proofs.Eval.Exchange
import ShellExpansion.Proofs.Store.Pointing
import ShellExpansion.Proofs.Eval.Refusal
import ShellExpansion.Proofs.Eval.Adding
import ShellExpansion.Proofs.Store.Chains
import ShellExpansion.Proofs.Store.Removal
import ShellExpansion.Proofs.Builtin.Settings
import ShellExpansion.Proofs.Eval.Joining
import ShellExpansion.Proofs.Eval.Concatenation
import ShellExpansion.Proofs.Session.Pattern
import ShellExpansion.Proofs.Parameter.Splitting
import ShellExpansion.Proofs.Parameter.Writing
import ShellExpansion.Proofs.Arith.SignedConstant
import ShellExpansion.Proofs.Eval.PlainNumber
import ShellExpansion.Proofs.Eval.NameChain
import ShellExpansion.Proofs.Session.NameChain
import ShellExpansion.Proofs.Eval.ReadBack
import ShellExpansion.Proofs.Store.Elements
import ShellExpansion.Proofs.Eval.ElementWrites
import ShellExpansion.Proofs.Eval.Placing
import ShellExpansion.Proofs.Eval.Views
import ShellExpansion.Proofs.Arith.ConstantGrammar
import ShellExpansion.Proofs.Arith.BasedConstant
import ShellExpansion.Proofs.Text.Decimal
import ShellExpansion.Proofs.Brace.Sequence
import ShellExpansion.Proofs.Eval.Selection
import ShellExpansion.Proofs.Lexical.Splitting
import ShellExpansion.Proofs.Lexical.Balanced
import ShellExpansion.Proofs.Arith.Covering
import ShellExpansion.Proofs.Session.Positions
import ShellExpansion.Proofs.Eval.Substring
import ShellExpansion.Proofs.Session.Parts
