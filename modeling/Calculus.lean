import Calculus.Expr.Outline
import Calculus.Expr.Traversal
import Calculus.Journal
import Calculus.Main
import Calculus.Proofs.Position
import Calculus.Proofs.Location
import Calculus.Proofs.Simplification.Irreducible
import Calculus.Proofs.Evaluation.Faults
import Calculus.Proofs.Double.Identities
import Calculus.Proofs.Simplification.Value
import Calculus.Proofs.Derivative.Slope
import Calculus.Proofs.Simplification.Failures
import Calculus.Proofs.Simplification.Verdict
import Calculus.Proofs.Simplification.History
import Calculus.Proofs.Evaluation.Outcome
import Calculus.Proofs.Derivative.Leaves
import Calculus.Proofs.Simplification.Exact
import Calculus.Proofs.Derivative.Sound
import Calculus.Proofs.Evaluation.Fields
import Calculus.Proofs.Derivative.Pruning
import Calculus.Proofs.Rendering
import Calculus.Proofs.Registry.Runs
import Calculus.Proofs.Evaluation.Independence
import Calculus.Proofs.Simplification.Stages
import Calculus.Proofs.Alignment
import Calculus.Proofs.Simplification.Lockstep
import Calculus.Proofs.Traversal
import Calculus.Proofs.Equality
import Calculus.Proofs.Derivative.Degree
import Calculus.Proofs.Derivative.Growth
import Calculus.Proofs.Derivative.Mixed
import Calculus.Proofs.Dependence
import Calculus.Proofs.Simplification.Collectors
import Calculus.Proofs.Simplification.Savings
import Calculus.Proofs.Derivative.Choices
import Calculus.Proofs.Text.OneEdit
import Calculus.Proofs.Registry.Suggestions
import Calculus.Proofs.Numeral.Window
import Calculus.Proofs.Numeral.Text
import Calculus.Proofs.Registry.Values
import Calculus.Proofs.Double.Order
import Calculus.Proofs.Double.Rounding
import Calculus.Proofs.Double.Monotone
import Calculus.Proofs.Sweep
