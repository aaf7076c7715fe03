import Sol25.CommandLine
import Sol25.Main
import Sol25.Proofs.Concatenation
import Sol25.Proofs.Diagnostics
import Sol25.Proofs.Document.Legible
import Sol25.Proofs.Grammar.FirstError
import Sol25.Proofs.Lexis.Rendering
import Sol25.Proofs.LineEnds
import Sol25.Proofs.Analysis.Unwinding
import Sol25.Proofs.Analysis.Growth
import Sol25.Proofs.Analysis.Runs
import Sol25.Proofs.Analysis.Accepted
import Sol25.Proofs.Analysis.Messages
import Sol25.Proofs.Analysis.Rearranged
import Sol25.Proofs.Analysis.Leftovers
import Sol25.Proofs.Grammar.Runs
import Sol25.Proofs.Lexis.Runs
import Sol25.Proofs.Registry.Nearest
import Sol25.Proofs.Analysis.Depth
import Sol25.Proofs.SpanNesting
import Sol25.Proofs.Document.Lines
import Sol25.Proofs.Locations
import Sol25.Proofs.ReportLine
