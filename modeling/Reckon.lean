import Reckon.Console.Highlight
import Reckon.Main
import Reckon.Proofs.Console.Groups
import Reckon.Proofs.Expr.Completion
import Reckon.Proofs.Expr.Joining
import Reckon.Proofs.Expr.Culprit
import Reckon.Proofs.Session.Batch
import Reckon.Proofs.Session.Errors
import Reckon.Proofs.Value.ReadBack
import Reckon.Proofs.Eval.Limit
import Reckon.Proofs.Session.Limit
import Reckon.Proofs.Eval.Visible
import Reckon.Proofs.Eval.Order
import Reckon.Proofs.Eval.Outcome
import Reckon.Proofs.Token.Shape
import Reckon.Proofs.Session.Bindings
import Reckon.Proofs.Token.Tiling
import Reckon.Proofs.Token.LiteralUnit
import Reckon.Proofs.Token.Fault
import Reckon.Proofs.Token.Spacing
import Reckon.Proofs.Token.Spelling
import Reckon.Proofs.Session.Reload
import Reckon.Proofs.Eval.Comparison
import Reckon.Proofs.Session.NumberText
import Reckon.Proofs.Binary64.Words
import Reckon.Proofs.Binary64.Whole
import Reckon.Proofs.Eval.Words
import Reckon.Proofs.Decimal.Fewest
import Reckon.Proofs.Text.Numeral
import Reckon.Proofs.Binary64.Display
import Reckon.Proofs.Eval.Remainder
import Reckon.Proofs.Eval.Coercion
import Reckon.Proofs.Eval.TextAlgebra
import Reckon.Proofs.Scope.Chain
import Reckon.Proofs.Scope.Recovery
import Reckon.Proofs.Console.Spans
import Reckon.Proofs.Expr.Uncut
