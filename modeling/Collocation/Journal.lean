import Collocation.Dense.Polynomial

/-!
# The journal of a run

A run leaves entries in a journal: that an interpolation has started, that a column had no
pivot, that a polynomial was fitted. Which entries a run leaves follows from its input and
its outcome: a run is noted once its sample set is valid, and solving only if some column has
no pivot. An entry that was made before a trap stays.
-/

set_option autoImplicit false

namespace Collocation

abbrev Outcome (β : Type) := Except Trap (Except Rejection β)

namespace Journal

inductive Entry where
  | interpolating (samples queries : Nat)
  | noPivot (column dim : Nat)
  | fitted (samples : Nat) (degree : Option Nat)
  deriving DecidableEq, Repr

namespace Entry

def level : Entry → String
  | interpolating _ _ => "DEBUG"
  | noPivot _ _ => "DEBUG"
  | fitted _ _ => "TRACE"

def degreeText : Option Nat → String
  | none => "None"
  | some d => s!"Some({d})"

def text : Entry → String
  | interpolating samples queries =>
    s!"vandermonde interpolation: {samples} samples, {queries} evaluation points"
  | noPivot column dim => s!"no pivot in column {column} of {dim}x{dim} system"
  | fitted samples degree => s!"fitted {samples} samples, degree {degreeText degree}"

end Entry

variable {α β : Type}

def ofSolve (dim : Nat) : Outcome β → List Entry
  | .ok (.error (.singular column)) => [.noPivot column dim]
  | _ => []

def ofInterpolate [BEq α] (s : SampleSet α) (outcome : Outcome β) : List Entry :=
  match s.validate with
  | .error _ => []
  | .ok () => .interpolating s.nodes.length s.queries.length :: ofSolve s.nodes.length outcome

def ofFit (A : Arithmetic (Except Trap) α) (xs : List α) : Outcome (DensePoly α) → List Entry
  | .ok (.ok p) => [.fitted xs.length (p.degree? A)]
  | outcome => ofSolve xs.length outcome

def ofFitByReport [BEq α] (xs ys : List α) (outcome : Outcome β) : List Entry :=
  match SampleSet.ofSamples xs ys with
  | .error _ => []
  | .ok s => ofInterpolate s outcome

def ofInterpolateText (nodes values queries : List String) (outcome : Outcome β) : List Entry :=
  match SampleSet.ofText nodes values queries with
  | .error _ => []
  | .ok s => ofInterpolate s outcome

end Journal

end Collocation
