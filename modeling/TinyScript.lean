import TinyScript.Proofs.AnnotationIndependence
import TinyScript.Proofs.ClosingQuotes
import TinyScript.Proofs.Constants
import TinyScript.Proofs.EarliestError
import TinyScript.Proofs.EarlyReturn
import TinyScript.Proofs.ElementSafety
import TinyScript.Proofs.Extension
import TinyScript.Proofs.FunctionOrder
import TinyScript.Proofs.GlobalOrder
import TinyScript.Proofs.GrammarExactness
import TinyScript.Proofs.KeywordCase
import TinyScript.Proofs.LexicalScope
import TinyScript.Proofs.ListDisplay
import TinyScript.Proofs.ListStore
import TinyScript.Proofs.LiteralLanguage
import TinyScript.Proofs.LosslessSplit
import TinyScript.Proofs.ParserPositions
import TinyScript.Proofs.PrintedNumbers
import TinyScript.Proofs.RefusingSink
import TinyScript.Proofs.Respacing
import TinyScript.Proofs.ResultInference
import TinyScript.Proofs.Reuse
import TinyScript.Proofs.ScaleRange
import TinyScript.Proofs.ScopeHistory
import TinyScript.Proofs.ScopeSafety
import TinyScript.Proofs.SourceRoundTrip
import TinyScript.Proofs.Steadiness
import TinyScript.Proofs.SwitchUnfolding
import TinyScript.Proofs.Termination
import TinyScript.Proofs.TypeSafety
import TinyScript.Proofs.TypingCertificate
import TinyScript.Proofs.ValueOrder
import TinyScript.Toolchain
