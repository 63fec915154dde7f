import Collocation.Arithmetic.Machine
import Collocation.Linear.GaussJordan
import Collocation.Numeral.Coordinate
import Collocation.Samples.SampleSet

/-!
# Running a sample set

A run validates the set, builds the power table of the nodes, solves it for the values, and
evaluates the resulting coefficients at the query points, inside or outside the range of the
nodes. The report carries the coefficients together with the values at the query points.

Nodes, values and query points may be supplied as coordinates. They are read as exact
rational numbers, all of them before any is used, and then run as a sample set of distinct
nodes. Two spellings of one number are the same node.
-/

set_option autoImplicit false

namespace Collocation

structure Report (α : Type) where
  samples : Nat
  queries : Nat
  coefficients : List α
  values : List α
  deriving DecidableEq, Repr

namespace Report

def method : String := "vandermonde"

def blank {α : Type} (samples queries : Nat) : Report α := ⟨samples, queries, [], []⟩

end Report

namespace Arithmetic

variable {m : Type → Type} {α : Type} [Monad m] [BEq α]

def interpolate (A : Arithmetic m α) (s : SampleSet α) : ExceptT Rejection m (Report α) :=
  match s.validate with
  | .error e => throw e
  | .ok () => do
    let table ← A.powerTable s.nodes
    let coefficients ← A.solve table s.values
    let values ← A.evaluate s.queries coefficients
    let report : Report α := .blank s.nodes.length s.queries.length
    return { report with coefficients := coefficients, values := values }

end Arithmetic

namespace SampleSet

def ofText (nodes values queries : List String) : Except Rejection (SampleSet Rat) := do
  let xs ← Coordinate.readAll nodes
  let ys ← Coordinate.readAll values
  let ps ← Coordinate.readAll queries
  let s ← ofSamples xs ys
  return s.setQueries ps

end SampleSet

def interpolateText (nodes values queries : List String) :
    ExceptT Rejection (Except Trap) (Report Rat) :=
  match SampleSet.ofText nodes values queries with
  | .error e => throw e
  | .ok s => rational.interpolate s

end Collocation
