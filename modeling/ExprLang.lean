import ExprLang.CommandLine
import ExprLang.Diagnostic.Basic
import ExprLang.Diagnostic.Excerpt
import ExprLang.Grammar.Derive
import ExprLang.Grammar.Reply
import ExprLang.Grammar.Rule
import ExprLang.Grammar.Table
import ExprLang.Literal
import ExprLang.Main
import ExprLang.Number.Binary64
import ExprLang.Number.Layout
import ExprLang.Number.Numeral
import ExprLang.Number.Shortest
import ExprLang.Proofs.Reading.Stream
import ExprLang.Proofs.Reading.Success
import ExprLang.Source.Position
import ExprLang.Text.Escape
import ExprLang.Token.Basic
import ExprLang.Token.Lexeme
import ExprLang.Token.Scan
import ExprLang.Token.Spelling
import ExprLang.Token.Stream
import ExprLang.Tree.Agreement
import ExprLang.Tree.Basic
import ExprLang.Tree.Operator
import ExprLang.Tree.Text
import ExprLang.Proofs.Reading.Progress
import ExprLang.Proofs.Reading.Coupling
import ExprLang.Proofs.Reading.Depth
import ExprLang.Proofs.Reading.Passing
import ExprLang.Proofs.Reading.Trees
import ExprLang.Proofs.Tree.Node
import ExprLang.Proofs.Grammar.Derivation
import ExprLang.Proofs.Grammar.Powers
import ExprLang.Proofs.Grammar.Soundness
import ExprLang.Proofs.Grammar.Completeness
import ExprLang.Proofs.Scanning.Lexeme
import ExprLang.Proofs.Scanning.Scans
import ExprLang.Proofs.Scanning.Value
import ExprLang.Proofs.Grammar.Parsing
import ExprLang.Proofs.Scanning.Tiling
import ExprLang.Proofs.Scanning.Place
import ExprLang.Proofs.Scanning.Longest
import ExprLang.Proofs.Scanning.Spacing
import ExprLang.Proofs.Grammar.Joining
import ExprLang.Proofs.Grammar.Diagnosis
import ExprLang.Proofs.Printing.Canonical
import ExprLang.Proofs.Printing.Spells
import ExprLang.Proofs.Printing.Literal
import ExprLang.Proofs.Printing.Expression
import ExprLang.Proofs.Printing.Statement
import ExprLang.Proofs.Printing.RoundTrip
import ExprLang.Proofs.Source.Line
import ExprLang.Proofs.Diagnostic.Message
import ExprLang.Proofs.Diagnostic.Excerpt
import ExprLang.Proofs.Reading.Lookahead
import ExprLang.Proofs.Reading.Registration
import ExprLang.Proofs.Reading.Ending
import ExprLang.Proofs.Scanning.Braces
import ExprLang.Proofs.Grammar.Blocks
import ExprLang.Proofs.Text.Escape
import ExprLang.Proofs.Printing.Opening
import ExprLang.Proofs.Printing.Boundary
import ExprLang.Proofs.Printing.Readable
import ExprLang.Proofs.Printing.Unique
import ExprLang.Proofs.Reading.Chains
import ExprLang.Proofs.Grammar.Assignable
import ExprLang.Proofs.Scanning.Malformed
import ExprLang.Proofs.Scanning.Reaching
import ExprLang.Proofs.Scanning.Completion
import ExprLang.Proofs.Scanning.Unit
import ExprLang.Proofs.Grammar.Literals
import ExprLang.Proofs.Printing.Escaping
import ExprLang.Proofs.Printing.Surviving
import ExprLang.Proofs.Reading.Associating
import ExprLang.Proofs.Reading.Raising
import ExprLang.Proofs.Grammar.Refusing
