import SqlComposer.Description
import SqlComposer.Main
import SqlComposer.Proofs.Branches.History
import SqlComposer.Proofs.Dialect.LiteralReader
import SqlComposer.Proofs.Pass.Run
import SqlComposer.Proofs.Pass.Segment
import SqlComposer.Proofs.Pass.BlockTree
import SqlComposer.Proofs.Dialect.Nesting
import SqlComposer.Proofs.Dialect.WholeLiterals
import SqlComposer.Proofs.Clause.WholeScalars
import SqlComposer.Proofs.Dialect.ClauseReader
import SqlComposer.Proofs.Clause.MappingReader
import SqlComposer.Proofs.Dialect.PatternReader
import SqlComposer.Proofs.Output.Spacing
import SqlComposer.Proofs.Lexeme.PlainText
import SqlComposer.Proofs.Pass.Slot
import SqlComposer.Proofs.Pass.Placeholder
import SqlComposer.Proofs.Pass.Splice
import SqlComposer.Proofs.Number.LineComment
import SqlComposer.Proofs.Lexeme.Seam
import SqlComposer.Proofs.Pass.Parallel
import SqlComposer.Proofs.Pass.Overlooked
import SqlComposer.Proofs.Pass.Inline
import SqlComposer.Proofs.Pass.LeftOut
import SqlComposer.Proofs.Output.Marks
import SqlComposer.Proofs.Pass.Carried
import SqlComposer.Proofs.Pass.Shown
import SqlComposer.Proofs.Render.Keeps
import SqlComposer.Proofs.Pass.Framed
import SqlComposer.Proofs.Lexeme.Modes
import SqlComposer.Proofs.Pass.Rescan
import SqlComposer.Proofs.Pass.Nested
import SqlComposer.Proofs.Calendar.IsoReader
import SqlComposer.Proofs.Stream.Encoding
import SqlComposer.Proofs.Stream.RoundTrip
import SqlComposer.Proofs.Render.Faults
import SqlComposer.Proofs.Pass.Faults
import SqlComposer.Proofs.Pass.Met
import SqlComposer.Proofs.Pass.Total
import SqlComposer.Proofs.Lexeme.Names
import SqlComposer.Proofs.Pass.Rows
import SqlComposer.Proofs.Render.Tally
import SqlComposer.Proofs.Clause.Table
import SqlComposer.Proofs.Pass.Enclosed
import SqlComposer.Proofs.Clause.Operands
import SqlComposer.Proofs.Dialect.IdentifierReader
import SqlComposer.Proofs.Lexeme.Tiling
import SqlComposer.Proofs.Number.Notation
import SqlComposer.Proofs.Number.Unquoted
import SqlComposer.Proofs.Output.Joining
import SqlComposer.Proofs.Lexeme.Quotes
import SqlComposer.Proofs.Calendar.MomentReader
import SqlComposer.Proofs.Stream.HexText
import SqlComposer.Proofs.Clause.NullSafety
import SqlComposer.Proofs.Pass.Directives
import SqlComposer.Proofs.Pass.Descent
import SqlComposer.Proofs.Number.FewestDigits
import SqlComposer.Proofs.Substitution.OnePass
