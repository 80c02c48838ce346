import ArrowLang.Main
import ArrowLang.Term.Shape
import ArrowLang.Proofs.TypeSystem
import ArrowLang.Proofs.FirstError
import ArrowLang.Proofs.Grammar.Plain
import ArrowLang.Proofs.Grammar.Earliest
import ArrowLang.Proofs.PrintedTypes
import ArrowLang.Proofs.SourceText
import ArrowLang.Proofs.DiagnosticSpans
import ArrowLang.Proofs.TypeNames
import ArrowLang.Proofs.FreeVariables
import ArrowLang.Proofs.DidYouMean
import ArrowLang.Proofs.VisitOrder
import ArrowLang.Proofs.Inlining
import ArrowLang.Proofs.ReportText
import ArrowLang.Proofs.TriviaInsertion
import ArrowLang.Proofs.OffsetArithmetic
import ArrowLang.Proofs.Scoping
import ArrowLang.Proofs.NodeNumbers
import ArrowLang.Proofs.ErrorLimit
import ArrowLang.Proofs.LineLookup
import ArrowLang.Proofs.Tape
import ArrowLang.Proofs.Tape.Follows
import ArrowLang.Proofs.Tape.FirstEof
import ArrowLang.Proofs.Snippet.Layout
import ArrowLang.Proofs.Snippet.FixedLine
import ArrowLang.Proofs.Snippet.Underline
import ArrowLang.Proofs.Snippet.Colors
import ArrowLang.Proofs.Spelling.Closest
