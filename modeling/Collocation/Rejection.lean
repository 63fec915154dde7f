import Collocation.Text.Characters

/-!
# Reasons for refusing an input

A rejection says what is wrong with the data that was supplied: its shape, its values, or the
linear system it leads to. It is an ordinary answer. Running out of number range is not a
rejection, and neither is asking a matrix for a row that it does not have.
-/

set_option autoImplicit false

namespace Collocation

inductive Rejection where
  | unequalLength (nodes values : Nat)
  | emptyInput
  | repeatedNode (first second : Nat)
  | dimensionMismatch (rows entries : Nat)
  | notSquare (rows row columns : Nat)
  | singular (column : Nat)
  | invalidCoordinate (text : String)
  deriving DecidableEq, Repr

namespace Rejection

def message : Rejection → String
  | unequalLength nodes values => s!"unequal length: x has {nodes} elements, y has {values}"
  | emptyInput => "empty input vector(s)"
  | repeatedNode first second =>
    s!"duplicate x-values detected at indices {first} and {second}"
  | dimensionMismatch rows entries =>
    s!"dimension mismatch: matrix has {rows} rows, right-hand side has {entries} entries"
  | notSquare rows row columns =>
    s!"matrix is not square: {rows} rows but row {row} has {columns} columns"
  | singular column =>
    s!"singular matrix: no pivot in column {column}, system has no unique solution"
  | invalidCoordinate text =>
    s!"invalid coordinate {Text.quoted text}: expected an integer, fraction or decimal"

end Rejection

end Collocation
