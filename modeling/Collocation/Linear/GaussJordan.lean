import Collocation.Arithmetic.Basic
import Collocation.Linear.SquareMatrix

/-!
# Gauss-Jordan elimination

A square system is solved on its augmented rows, column by column. In column `c` the pivot is
the first entry at or below the diagonal that is not zero; size plays no role. The pivot row
moves into place and is divided by the pivot, and its multiples are subtracted from every
other row whose entry in the column is not zero. Entries left of the column are finished and
stay as they are.

`reduce` is the state after any number of columns, so that statements can be made about every
stage of a run. A column without a pivot ends the run; the system is singular.
-/

set_option autoImplicit false

namespace Collocation

def exchange {α : Type} (rows : List (List α)) (i j : Nat) : List (List α) :=
  (rows.set i (rows.getD j [])).set j (rows.getD i [])

def augment {α : Type} (rows : List (List α)) (rhs : List α) : List (List α) :=
  List.zipWith (fun row b => row ++ [b]) rows rhs

namespace Arithmetic

variable {m : Type → Type} {α : Type} [Monad m]

def pivotRow? (A : Arithmetic m α) (rows : List (List α)) (c : Nat) : Option Nat :=
  ((rows.drop c).findIdx? fun row => !A.isZero (row.getD c A.zero)).map (c + ·)

def scaleRow (A : Arithmetic m α) (c : Nat) (row : List α) : m (List α) := do
  let p := row.getD c A.zero
  let tail ← (row.drop c).mapM fun a => A.div a p
  pure (row.take c ++ tail)

def subtractMultiple (A : Arithmetic m α) (factor : α) (entries : α × α) : m α := do
  let product ← A.mul factor entries.2
  A.sub entries.1 product

def clearRow (A : Arithmetic m α) (c : Nat) (pivot row : List α) : m (List α) :=
  let factor := row.getD c A.zero
  if A.isZero factor then pure row
  else do
    let tail ← ((row.drop c).zip (pivot.drop c)).mapM (A.subtractMultiple factor)
    pure (row.take c ++ tail)

def eliminate (A : Arithmetic m α) (rows : List (List α)) (c p : Nat) : m (List (List α)) := do
  let exchanged := exchange rows c p
  let pivot ← A.scaleRow c (exchanged.getD c [])
  exchanged.zipIdx.mapM fun row => if row.2 = c then pure pivot else A.clearRow c pivot row.1

def clearColumn (A : Arithmetic m α) (rows : List (List α)) (c : Nat) :
    ExceptT Rejection m (List (List α)) :=
  match A.pivotRow? rows c with
  | none => throw (.singular c)
  | some p => liftM (A.eliminate rows c p)

def reduce (A : Arithmetic m α) (rows : List (List α)) :
    Nat → ExceptT Rejection m (List (List α))
  | 0 => pure rows
  | k + 1 => do
    let reduced ← A.reduce rows k
    A.clearColumn reduced k

def solve (A : Arithmetic m α) (a : SquareMatrix α) (rhs : List α) :
    ExceptT Rejection m (List α) :=
  if rhs.length = a.dim then do
    let rows ← A.reduce (augment a.toRows rhs) a.dim
    pure (rows.map fun row => row.getD a.dim A.zero)
  else throw (.dimensionMismatch a.dim rhs.length)

end Arithmetic

end Collocation
