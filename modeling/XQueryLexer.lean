import XQueryLexer.Analysis
import XQueryLexer.CommandLine.Command
import XQueryLexer.Main
import XQueryLexer.Output
import XQueryLexer.Piece
import XQueryLexer.Proofs.Delimiter.Collecting
import XQueryLexer.Proofs.Delimiter.Comment
import XQueryLexer.Proofs.Delimiter.Depth
import XQueryLexer.Proofs.Delimiter.Diagnostics
import XQueryLexer.Proofs.Delimiter.Evidence
import XQueryLexer.Proofs.Delimiter.Reporting
import XQueryLexer.Proofs.Delimiter.StringLiteral
import XQueryLexer.Proofs.Lexeme.Adjoining
import XQueryLexer.Proofs.Lexeme.Blank
import XQueryLexer.Proofs.Lexeme.Boundary
import XQueryLexer.Proofs.Lexeme.Coverage
import XQueryLexer.Proofs.Lexeme.Cutting
import XQueryLexer.Proofs.Lexeme.Layout
import XQueryLexer.Proofs.Lexeme.Overlap
import XQueryLexer.Proofs.Lexeme.Pending
import XQueryLexer.Proofs.Lexeme.Quoting
import XQueryLexer.Proofs.Lexeme.Run
import XQueryLexer.Proofs.Lexeme.Scanning
import XQueryLexer.Proofs.Lexeme.Spacing
import XQueryLexer.Proofs.Lexeme.Spans
import XQueryLexer.Proofs.Naming.Alone
import XQueryLexer.Proofs.Naming.Apart
import XQueryLexer.Proofs.Naming.Following
import XQueryLexer.Proofs.Naming.Keywords
import XQueryLexer.Proofs.Naming.Labelling
import XQueryLexer.Proofs.Naming.Narration
import XQueryLexer.Proofs.Naming.Prefix
import XQueryLexer.Proofs.Naming.Roles
import XQueryLexer.Proofs.Naming.Setting
import XQueryLexer.Proofs.Naming.Skeleton
import XQueryLexer.Proofs.Nesting.Address
import XQueryLexer.Proofs.Nesting.Draft
import XQueryLexer.Proofs.Nesting.Forest
import XQueryLexer.Proofs.Nesting.Inside
import XQueryLexer.Proofs.Nesting.Nest
import XQueryLexer.Proofs.Nesting.Paths
import XQueryLexer.Proofs.Nesting.Pieces
import XQueryLexer.Proofs.Nesting.Siblings
import XQueryLexer.Proofs.Nesting.Structure
import XQueryLexer.Proofs.Nesting.Tracking
import XQueryLexer.Proofs.Output.Lines
import XQueryLexer.Proofs.Output.Outlining
import XQueryLexer.Proofs.Output.Reading
import XQueryLexer.Proofs.Output.Recovery
import XQueryLexer.Proofs.Report.Caret
import XQueryLexer.Proofs.Report.Counting
import XQueryLexer.Proofs.Report.Place
import XQueryLexer.Proofs.Session.History
import XQueryLexer.Proofs.Session.Lexer
import XQueryLexer.Report
import XQueryLexer.Watch
