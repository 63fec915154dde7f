/-!
# Arithmetic of a number type

Everything in this library that computes with numbers is written once, over a record of
operations. The operations may fail or leave a trace: they answer inside an effect `m`. Zero
testing is a plain function, because the algorithms branch on it. No law is assumed here;
what the algorithms do, and in which order, is the same for every number type.

A trap is an operation without a result. It ends the computation and is not an ordinary
answer.
-/

set_option autoImplicit false

namespace Collocation

inductive Operation where
  | add
  | subtract
  | multiply
  | divide
  deriving DecidableEq, Repr

def Operation.verb : Operation → String
  | add => "add"
  | subtract => "subtract"
  | multiply => "multiply"
  | divide => "divide"

inductive Trap where
  | overflow (op : Operation)
  | divisionByZero
  deriving DecidableEq, Repr

def Trap.message : Trap → String
  | overflow op => s!"attempt to {op.verb} with overflow"
  | divisionByZero => "attempt to divide by zero"

structure Arithmetic (m : Type → Type) (α : Type) where
  zero : α
  one : α
  isZero : α → Bool
  add : α → α → m α
  sub : α → α → m α
  mul : α → α → m α
  div : α → α → m α

namespace Arithmetic

/-! A power is formed by halving the exponent. Trailing zero bits of the exponent are used up by
squaring the base alone; then the remaining bits are worked off with an accumulator. The base
is squared only while bits remain, so the last square is always a factor of the result. -/

variable {m : Type → Type} {α : Type} [Monad m]

/-- Works off the bits of `e` above its lowest one, multiplying the accumulator by the squares
of the base at the positions of the set bits. -/
def raise (A : Arithmetic m α) (acc base : α) (e : Nat) : m α :=
  if e ≤ 1 then pure acc
  else do
    let square ← A.mul base base
    let acc ← if e / 2 % 2 = 1 then A.mul acc square else pure acc
    A.raise acc square (e / 2)
termination_by e

def power (A : Arithmetic m α) (base : α) (e : Nat) : m α :=
  if e = 0 then pure A.one
  else if e % 2 = 0 then do
    let square ← A.mul base base
    A.power square (e / 2)
  else A.raise base base e
termination_by e

@[simp] theorem power_zero (A : Arithmetic m α) (base : α) : A.power base 0 = pure A.one := by
  rw [power, if_pos rfl]

/-! A coefficient list is evaluated term by term. The coefficient at position `i` multiplies the
power `i` of the point. Terms are added in ascending order, starting from zero; each term is
formed from its own power, and no term is left out, zero coefficients included. -/

def addTerm (A : Arithmetic m α) (x acc : α) (term : α × Nat) : m α := do
  let power ← A.power x term.2
  let product ← A.mul term.1 power
  A.add acc product

def evaluateAt (A : Arithmetic m α) (x : α) (coefficients : List α) : m α :=
  coefficients.zipIdx.foldlM (A.addTerm x) A.zero

def evaluate (A : Arithmetic m α) (xs coefficients : List α) : m (List α) :=
  xs.mapM fun x => A.evaluateAt x coefficients

@[simp] theorem evaluateAt_nil (A : Arithmetic m α) (x : α) : A.evaluateAt x [] = pure A.zero := rfl

end Arithmetic

end Collocation
