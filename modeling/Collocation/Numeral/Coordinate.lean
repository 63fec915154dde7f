import Collocation.Rejection
import Collocation.Text.Characters

/-!
# Coordinates

A coordinate is a literal with blanks around it, read as an exact rational number. A literal is
a fraction of two signed integers, or a decimal: a mantissa with an optional point and an
optional power of ten. Reading keeps the parts as they stand, and the denoted value is computed
from the parts. A decimal is admitted only if its exponent is small enough to be carried out; a
mantissa of zeros needs no power of ten and is admitted with any exponent.

A text that is no literal is refused and quoted in full, blanks included. A list is read from
the left and is refused at its first text that is no literal.
-/

set_option autoImplicit false

namespace Collocation

namespace Numeral

/-! Numbers are read by position, most significant digit first, with no bound on their length.
Only the ten ASCII digits count. A signed integer is a digit string with at least one digit
after at most one sign. -/

def digitValue (c : Char) : Nat := c.toNat - '0'.toNat

def digitsValue (ds : List Char) : Nat :=
  ds.foldl (fun n c => 10 * n + digitValue c) 0

@[simp] theorem digitsValue_nil : digitsValue [] = 0 := rfl

theorem digitsValue_concat (ds : List Char) (c : Char) :
    digitsValue (ds ++ [c]) = 10 * digitsValue ds + digitValue c := by
  simp [digitsValue]

def splitSign : List Char → Bool × List Char
  | '-' :: cs => (true, cs)
  | '+' :: cs => (false, cs)
  | cs => (false, cs)

def signed (negative : Bool) (n : Nat) : Int := if negative then -(n : Int) else n

def isDigitString (cs : List Char) : Bool := !cs.isEmpty && cs.all Char.isDigit

def readInteger? (cs : List Char) : Option Int :=
  let s := splitSign cs
  if isDigitString s.2 then some (signed s.1 (digitsValue s.2)) else none

def cut (p : Char → Bool) (cs : List Char) : List Char × Option (List Char) :=
  (cs.takeWhile fun c => !p c, (cs.dropWhile fun c => !p c).tail?)

/-! A sign belongs to the mantissa only in front of all its digits, and a malformed exponent is
refused whatever the mantissa. -/

def maxExponent : Nat := 10000

structure Decimal where
  negative : Bool
  whole : List Char
  fraction : List Char
  exponent : Int
  deriving DecidableEq, Repr

inductive Literal where
  | fraction (numerator denominator : Int)
  | decimal (d : Decimal)
  deriving DecidableEq, Repr

namespace Decimal

def digits (d : Decimal) : List Char := d.whole ++ d.fraction

def isZero (d : Decimal) : Bool := d.digits.all (· == '0')

def isAdmitted (d : Decimal) : Bool := d.isZero || d.exponent.natAbs ≤ maxExponent

def mantissa (d : Decimal) : Int := signed d.negative (digitsValue d.digits)

def shift (d : Decimal) : Int := d.exponent - d.fraction.length

def ratio (d : Decimal) : Int × Int :=
  if d.isZero then (0, 1)
  else if 0 ≤ d.shift then (d.mantissa * Nat.pow 10 d.shift.toNat, 1)
  else (d.mantissa, Nat.pow 10 (-d.shift).toNat)

def isExponentMark (c : Char) : Bool := c == 'e' || c == 'E'

def readExponent? : Option (List Char) → Option Int
  | none => some 0
  | some cs => readInteger? cs

def read? (cs : List Char) : Option Decimal :=
  let parts := cut isExponentMark cs
  let mantissa := splitSign parts.1
  let point := cut (· == '.') mantissa.2
  let fraction := point.2.getD []
  if isDigitString (point.1 ++ fraction) then
    match readExponent? parts.2 with
    | none => none
    | some e =>
      let d : Decimal := ⟨mantissa.1, point.1, fraction, e⟩
      if d.isAdmitted then some d else none
  else none

end Decimal

namespace Literal

def ratio : Literal → Int × Int
  | fraction n d => (n, d)
  | decimal d => d.ratio

def value (l : Literal) : Rat := Rat.divInt l.ratio.1 l.ratio.2

def readFraction? (a b : List Char) : Option Literal :=
  match readInteger? (Text.trim a), readInteger? (Text.trim b) with
  | some n, some d => if d = 0 then none else some (fraction n d)
  | _, _ => none

def read? (cs : List Char) : Option Literal :=
  let sides := cut (· == '/') cs
  match sides.2 with
  | some b => readFraction? sides.1 b
  | none => (Decimal.read? cs).map decimal

end Literal

end Numeral

namespace Coordinate

def literal? (s : String) : Option Numeral.Literal := Numeral.Literal.read? (Text.trim s.toList)

def read (s : String) : Except Rejection Rat :=
  match literal? s with
  | some l => .ok l.value
  | none => .error (.invalidCoordinate s)

def readAll (ss : List String) : Except Rejection (List Rat) := ss.mapM read

end Coordinate

end Collocation
