import Blockscript.Main
import Blockscript.Store.Host
import Blockscript.Syntax.TokenCursor
import Blockscript.Token.Cursor
import Blockscript.Proofs.Evaluation.Safety
import Blockscript.Proofs.Evaluation.Lexicality
import Blockscript.Proofs.Evaluation.Restored
import Blockscript.Proofs.Syntax.Written
import Blockscript.Proofs.Syntax.Refusal
import Blockscript.Proofs.Syntax.Progress
import Blockscript.Proofs.CommandLine.Emission
import Blockscript.Proofs.Evaluation.Declared
import Blockscript.Proofs.Evaluation.Moments
import Blockscript.Proofs.Store.Permanent
import Blockscript.Proofs.Evaluation.Permanent
import Blockscript.Proofs.Evaluation.Levels
import Blockscript.Proofs.CommandLine.Trees
import Blockscript.Proofs.Evaluation.Computed
import Blockscript.Proofs.Evaluation.Order
import Blockscript.Proofs.Evaluation.Termination
import Blockscript.Proofs.Token.Offset
import Blockscript.Proofs.Evaluation.Returned
import Blockscript.Proofs.Evaluation.ForLoop
import Blockscript.Proofs.Decimal.Rational
import Blockscript.Proofs.Value.Division
import Blockscript.Proofs.Value.Calculation
import Blockscript.Proofs.Value.Equality
import Blockscript.Proofs.Value.Ordering
import Blockscript.Proofs.Store.Forest
import Blockscript.Proofs.Store.Updates
import Blockscript.Proofs.Store.Overloads
import Blockscript.Proofs.Evaluation.Logical
import Blockscript.Proofs.Evaluation.Initialization
import Blockscript.Proofs.Token.Pairing
import Blockscript.Proofs.Evaluation.Deeper
import Blockscript.Proofs.Evaluation.CallLog
import Blockscript.Proofs.Evaluation.Parentheses
