import TrustRegion.Convergence
import TrustRegion.Decimal.Exact
import TrustRegion.Decimal.Shortest
import TrustRegion.Decimal.Text
import TrustRegion.Difference
import TrustRegion.Evaluator.Basic
import TrustRegion.Evaluator.Differentiated
import TrustRegion.Evaluator.Problem
import TrustRegion.Fault
import TrustRegion.InputChecks
import TrustRegion.Journal
import TrustRegion.LinearAlgebra.Axis
import TrustRegion.LinearAlgebra.Basic
import TrustRegion.LinearAlgebra.Direct
import TrustRegion.LinearAlgebra.Eigenvalues
import TrustRegion.LinearAlgebra.Reflection
import TrustRegion.LinearAlgebra.Rotation
import TrustRegion.LinearAlgebra.Tridiagonal
import TrustRegion.Logging.Calls
import TrustRegion.Logging.Format
import TrustRegion.Logging.Level
import TrustRegion.Logging.Registry
import TrustRegion.Method
import TrustRegion.Minimize
import TrustRegion.Objective.Derivative
import TrustRegion.Objective.Expr
import TrustRegion.Objective.Sweep
import TrustRegion.Objective.Tape
import TrustRegion.Scalar
import TrustRegion.ShortFloat
import TrustRegion.State
import TrustRegion.StepSolver
import TrustRegion.Subproblem.Basic
import TrustRegion.Subproblem.HardCase
import TrustRegion.Subproblem.RootFinding
import TrustRegion.Subproblem.Solve
import TrustRegion.Tensor.Basic
import TrustRegion.Tensor.Broadcast
import TrustRegion.Update
import TrustRegion.Proofs.Accounting
import TrustRegion.Proofs.Answering
import TrustRegion.Proofs.Calls
import TrustRegion.Proofs.DifferenceCalls
import TrustRegion.Proofs.Diagonalization
import TrustRegion.Proofs.Secular
import TrustRegion.Proofs.ExactAlgebra
import TrustRegion.Proofs.Multipliers
import TrustRegion.Proofs.Routes
import TrustRegion.Proofs.Consistency
import TrustRegion.Proofs.Duality
import TrustRegion.Proofs.Extended
import TrustRegion.Proofs.Factorizations
import TrustRegion.Proofs.Feasibility
import TrustRegion.Proofs.HalfOptimal
import TrustRegion.Proofs.Interruption
import TrustRegion.Proofs.Radius
import TrustRegion.Proofs.Rejection
import TrustRegion.Proofs.Retry
import TrustRegion.Proofs.Course
import TrustRegion.Proofs.Decrease
import TrustRegion.Proofs.Stopping
import TrustRegion.Proofs.Verdict
import TrustRegion.Proofs.WellPosed
import TrustRegion.Proofs.Totality
import TrustRegion.Proofs.TwoRadii
import TrustRegion.Proofs.Observation
import TrustRegion.Proofs.Logs
import TrustRegion.Proofs.Quadratic
import TrustRegion.Proofs.DifferenceValues
import TrustRegion.Proofs.QuadraticDifferences
import TrustRegion.Proofs.NewtonStep
import TrustRegion.Proofs.OneIteration
import TrustRegion.Proofs.Descent
import TrustRegion.Proofs.Completion
import TrustRegion.Proofs.Ascent
import TrustRegion.Proofs.Settling
import TrustRegion.Proofs.Stationarity
import TrustRegion.Proofs.Regularization
import TrustRegion.Proofs.PolynomialDifferences
import TrustRegion.Proofs.Unconstrained
import TrustRegion.Proofs.Interior
import TrustRegion.Proofs.Eigenbases
import TrustRegion.Proofs.Rotations
import TrustRegion.Proofs.Borderline
import TrustRegion.Proofs.TiedPrefix
import TrustRegion.Proofs.PointwiseTests
import TrustRegion.Proofs.LoggersInPlace
import TrustRegion.Proofs.LoggerCalls
import TrustRegion.Proofs.LateLoggers
