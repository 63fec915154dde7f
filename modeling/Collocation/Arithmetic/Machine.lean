import Collocation.Arithmetic.Basic

/-!
# Number types

Rational numbers and integers without bounds are exact: no operation overflows, and the only
trap is a division by zero. The quotient of integers is truncated toward zero.

Signed 64-bit integers compute the exact integer result first and trap if it does not fit;
only the smallest integer divided by minus one overflows in a quotient. Double precision
numbers never trap, and both of their zeros count as zero.
-/

set_option autoImplicit false

namespace Collocation

def rational : Arithmetic (Except Trap) Rat where
  zero := 0
  one := 1
  isZero a := a == 0
  add a b := .ok (a + b)
  sub a b := .ok (a - b)
  mul a b := .ok (a * b)
  div a b := if b = 0 then .error .divisionByZero else .ok (a / b)

def integer : Arithmetic (Except Trap) Int where
  zero := 0
  one := 1
  isZero a := a == 0
  add a b := .ok (a + b)
  sub a b := .ok (a - b)
  mul a b := .ok (a * b)
  div a b := if b = 0 then .error .divisionByZero else .ok (a.tdiv b)

def fitsInt64 (n : Int) : Prop := Int64.minValue.toInt ≤ n ∧ n ≤ Int64.maxValue.toInt

instance (n : Int) : Decidable (fitsInt64 n) := inferInstanceAs (Decidable (_ ∧ _))

def int64Result (op : Operation) (n : Int) : Except Trap Int64 :=
  if fitsInt64 n then .ok (Int64.ofInt n) else .error (.overflow op)

def int64 : Arithmetic (Except Trap) Int64 where
  zero := 0
  one := 1
  isZero a := a == 0
  add a b := int64Result .add (a.toInt + b.toInt)
  sub a b := int64Result .subtract (a.toInt - b.toInt)
  mul a b := int64Result .multiply (a.toInt * b.toInt)
  div a b :=
    if b = 0 then .error .divisionByZero else int64Result .divide (a.toInt.tdiv b.toInt)

def double : Arithmetic (Except Trap) Float where
  zero := 0
  one := 1
  isZero a := a == 0
  add a b := .ok (a + b)
  sub a b := .ok (a - b)
  mul a b := .ok (a * b)
  div a b := .ok (a / b)

end Collocation
