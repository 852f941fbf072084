import Verdict.Session
import Verdict.Proofs.Evaluation.Matching
import Verdict.Proofs.Evaluation.Satisfaction
import Verdict.Proofs.Evaluation.Fixpoint
import Verdict.Proofs.Evaluation.Growth
import Verdict.Proofs.Evaluation.LeastModel
import Verdict.Proofs.Evaluation.Instances
import Verdict.Proofs.Document.Checking
import Verdict.Proofs.Syntax.Accepted
import Verdict.Proofs.Syntax.RoundTrip
import Verdict.Proofs.Evaluation.Base
import Verdict.Proofs.Evaluation.Dependency
import Verdict.Proofs.Evaluation.Failure
import Verdict.Proofs.Evaluation.Convergence
import Verdict.Proofs.Evaluation.Confluence
import Verdict.Proofs.Evaluation.Founded
import Verdict.Proofs.Evaluation.Order
import Verdict.Proofs.Evaluation.Termination
import Verdict.Proofs.Evaluation.Bound
import Verdict.Proofs.Evaluation.WarmStart
import Verdict.Proofs.Syntax.Alignment
import Verdict.Proofs.Syntax.Declarations
import Verdict.Proofs.Syntax.Written
import Verdict.Proofs.Document.Reprint
import Verdict.Proofs.Evaluation.Locality
import Verdict.Proofs.Evaluation.ClauseOrder
import Verdict.Proofs.Evaluation.Rearrangement
import Verdict.Proofs.Document.Numbering
import Verdict.Proofs.Evaluation.Renaming
import Verdict.Proofs.Evaluation.Solutions
import Verdict.Proofs.Document.Rest
import Verdict.Proofs.Syntax.AlignedRules
import Verdict.Proofs.Document.Separation
import Verdict.Proofs.Evaluation.Arity
import Verdict.Proofs.Evaluation.Truncation
import Verdict.Proofs.Evaluation.Heads
import Verdict.Proofs.Document.RoundBound
import Verdict.Proofs.Document.Unresolved
import Verdict.Proofs.Document.Script
import Verdict.Proofs.Document.Noted
import Verdict.Proofs.Syntax.Layout
import Verdict.Proofs.Syntax.Joined
import Verdict.Proofs.Syntax.Faults
import Verdict.Proofs.Evaluation.Positions
import Verdict.Proofs.Syntax.Computed
