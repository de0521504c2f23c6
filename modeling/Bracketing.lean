import Bracketing.Catalan
import Bracketing.Lexer
import Bracketing.Main
import Bracketing.Proofs.EnumerationLaws
import Bracketing.Proofs.MemoizedLaws
import Bracketing.Proofs.ParallelLaws
import Bracketing.Proofs.FaultLaws
import Bracketing.Proofs.FlatLaws
import Bracketing.Proofs.CommandLine.Options
import Bracketing.Proofs.CommandLine.Reading
import Bracketing.Proofs.CommandLine.Answers
import Bracketing.Proofs.CountLaws
import Bracketing.Proofs.TableLaws
import Bracketing.Proofs.CommandLine.Listing
import Bracketing.Proofs.GrammarLaws
import Bracketing.Proofs.ValidationLaws
import Bracketing.Proofs.ForeignOperands
import Bracketing.Proofs.ZeroLaws
import Bracketing.Proofs.ZeroDivision
import Bracketing.Proofs.CatalanLaws
import Bracketing.Proofs.Partings
import Bracketing.Proofs.BracketLaws
import Bracketing.Proofs.ValuesText
import Bracketing.Proofs.OperandLaws
import Bracketing.Proofs.ZeroSigns
import Bracketing.Proofs.CacheLaws
