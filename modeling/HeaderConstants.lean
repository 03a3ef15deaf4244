import HeaderConstants.CommandLine.Run
import HeaderConstants.Main
import HeaderConstants.Proofs.Resolve.PassLimit
import HeaderConstants.Proofs.Resolve.WholeWords
import HeaderConstants.Proofs.Resolve.Modes
import HeaderConstants.Proofs.Resolve.LongestFirst
import HeaderConstants.Proofs.Resolve.Trace
import HeaderConstants.Proofs.Resolve.DefinedBefore
import HeaderConstants.Proofs.Expr.Overflow
import HeaderConstants.Proofs.Resolve.Progress
import HeaderConstants.Proofs.Generate.Resolved
import HeaderConstants.Proofs.Resolve.History
import HeaderConstants.Proofs.Resolve.Unrelated
import HeaderConstants.Proofs.Resolve.Cycle
import HeaderConstants.Proofs.Resolve.UnresolvedSymbol
import HeaderConstants.Proofs.Header.Definition
import HeaderConstants.Proofs.Header.Lines
import HeaderConstants.Proofs.Constant.Selection
import HeaderConstants.Proofs.Generate.FixedPoint
import HeaderConstants.Proofs.Constant.OrderedMap
import HeaderConstants.Proofs.Generate.Cut
import HeaderConstants.Proofs.Emit.DocComment
import HeaderConstants.Proofs.Emit.CompilerOutput
import HeaderConstants.Proofs.Emit.ConstantsOnly
import HeaderConstants.Proofs.Constant.Stored
import HeaderConstants.Proofs.Emit.Listing
import HeaderConstants.Proofs.CommandLine.AllOrNothing
import HeaderConstants.Proofs.Header.DefinitionForm
import HeaderConstants.Proofs.Header.Tokenize
import HeaderConstants.Proofs.Header.Nesting
import HeaderConstants.Proofs.Header.LeadingComment
import HeaderConstants.Proofs.Expr.Stripping
import HeaderConstants.Proofs.Expr.PrintedValue
import HeaderConstants.Proofs.Constant.StoredValue
import HeaderConstants.Proofs.Constant.KeptLine
import HeaderConstants.Proofs.Resolve.ShownText
