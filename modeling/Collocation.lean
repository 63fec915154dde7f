import Collocation.Text.Characters
import Collocation.Rejection
import Collocation.Numeral.Coordinate
import Collocation.Arithmetic.Basic
import Collocation.Arithmetic.Machine
import Collocation.Linear.PowerTable
import Collocation.Linear.SquareMatrix
import Collocation.Linear.GaussJordan
import Collocation.Samples.SampleSet
import Collocation.Samples.Report
import Collocation.Dense.Polynomial
import Collocation.Journal
import Collocation.Proofs.Arithmetic.Exactness
import Collocation.Proofs.Dense.Coefficients
import Collocation.Proofs.Linear.Tabulation
import Collocation.Proofs.Linear.Elimination
import Collocation.Proofs.Linear.RowOperations
import Collocation.Proofs.Linear.Solutions
import Collocation.Proofs.Dense.Newton
import Collocation.Proofs.Dense.CompleteHomogeneous
import Collocation.Proofs.Linear.PowerMatrix
import Collocation.Proofs.Linear.PowerSystem
import Collocation.Proofs.Samples.Repetition
import Collocation.Proofs.Samples.Interpolation
import Collocation.Proofs.Linear.IntegralNodes
import Collocation.Proofs.Samples.RepeatedNodes
import Collocation.Proofs.Dense.Fitting
import Collocation.Proofs.Arithmetic.Simulation
import Collocation.Proofs.Linear.Simulation
import Collocation.Proofs.Samples.Simulation
import Collocation.Proofs.Arithmetic.Recorded
import Collocation.Proofs.Arithmetic.Overflow
import Collocation.Proofs.Numeral.Grammar
import Collocation.Proofs.Samples.MachineRuns
import Collocation.Proofs.Numeral.Reading
import Collocation.Proofs.Numeral.Coordinate
import Collocation.Proofs.Numeral.Magnitude
import Collocation.Proofs.Linear.Dependence
import Collocation.Proofs.Samples.Edits
import Collocation.Proofs.Dense.Routes
import Collocation.Proofs.Samples.Tabulated
import Collocation.Proofs.Linear.ExactQuotients
import Collocation.Proofs.Linear.RightHandSide
import Collocation.Proofs.Linear.RowLengths
import Collocation.Proofs.Linear.FinishedColumns
import Collocation.Proofs.Linear.WholeRows
import Collocation.Proofs.Linear.Views
import Collocation.Proofs.Linear.WorkingEntries
import Collocation.Proofs.Arithmetic.PowerSteps
import Collocation.Proofs.Linear.MachineTables
import Collocation.Proofs.Linear.InPlace
import Collocation.Proofs.Samples.Answers
import Collocation.Proofs.Dense.CoefficientRing
import Collocation.Proofs.Samples.SupplyOrder
import Collocation.Proofs.Linear.Rebuilding
