import Collocation.Samples.Report

/-!
# Polynomials as coefficient lists

A polynomial is its list of coefficients in ascending order. Trailing zeros are kept and
count in comparisons; the degree does not see them. A polynomial is fitted to samples either
directly or by running the sample set and taking the coefficients of the report.

Whatever has a value at every point is an interpolator. It is evaluated at many points one after
the other, unless it brings its own way of doing so; a polynomial brings one that comes to the
same.
-/

set_option autoImplicit false

namespace Collocation

structure DensePoly (α : Type) where
  coefficients : List α
  deriving Repr

def lastIndex? {α : Type} (p : α → Bool) : List α → Option Nat
  | [] => none
  | a :: l =>
    match lastIndex? p l with
    | some i => some (i + 1)
    | none => if p a then some 0 else none

structure Interpolator (m : Type → Type) (α : Type) [Monad m] where
  eval : α → m α
  evalMany : List α → m (List α) := fun xs => xs.mapM eval

def Interpolator.ofEval {m : Type → Type} {α : Type} [Monad m] (f : α → m α) :
    Interpolator m α where
  eval := f

namespace DensePoly

variable {m : Type → Type} {α : Type}

instance [BEq α] : BEq (DensePoly α) where
  beq p q := p.coefficients == q.coefficients

def zero : DensePoly α := ⟨[]⟩

def ofReport (r : Report α) : DensePoly α := ⟨r.coefficients⟩

def degree? (p : DensePoly α) (A : Arithmetic m α) : Option Nat :=
  lastIndex? (fun c => !A.isZero c) p.coefficients

variable [Monad m]

def eval (p : DensePoly α) (A : Arithmetic m α) (x : α) : m α :=
  A.evaluateAt x p.coefficients

def evalMany (p : DensePoly α) (A : Arithmetic m α) (xs : List α) : m (List α) :=
  A.evaluate xs p.coefficients

def interpolator (p : DensePoly α) (A : Arithmetic m α) : Interpolator m α where
  eval := p.eval A
  evalMany := p.evalMany A

theorem interpolator_eq_ofEval (p : DensePoly α) (A : Arithmetic m α) :
    p.interpolator A = .ofEval (p.eval A) := rfl

end DensePoly

namespace Arithmetic

variable {m : Type → Type} {α : Type} [Monad m] [BEq α]

def fit (A : Arithmetic m α) (xs ys : List α) : ExceptT Rejection m (DensePoly α) :=
  if xs.length = ys.length then do
    let table ← A.distinctPowerTable xs
    let coefficients ← A.solve table ys
    return ⟨coefficients⟩
  else throw (.unequalLength xs.length ys.length)

def fitByReport (A : Arithmetic m α) (xs ys : List α) : ExceptT Rejection m (DensePoly α) :=
  match SampleSet.ofSamples xs ys with
  | .error e => throw e
  | .ok s => do
    let report ← A.interpolate s
    return .ofReport report

end Arithmetic

end Collocation
