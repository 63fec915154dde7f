import Collocation.Rejection

/-!
# Square matrices

The entries are stored in one list, row after row, and their number is part of the type. The
views of a matrix are the entry at a position, a row, the pieces that the storage falls into,
and the rows taken off the storage one by one.
-/

set_option autoImplicit false

namespace Collocation

structure SquareMatrix (α : Type) where
  dim : Nat
  entries : List α
  length_entries : entries.length = dim * dim

inductive RangeError where
  | entry (i j dim : Nat)
  | row (i dim : Nat)
  deriving DecidableEq, Repr

def RangeError.message : RangeError → String
  | entry i j dim => s!"index ({i}, {j}) out of range for {dim}x{dim} matrix"
  | row i dim => s!"row index {i} out of range for {dim}x{dim} matrix"

/-- Consecutive pieces of `width` entries, the last one possibly shorter. Width zero counts
as width one. -/
def pieces {α : Type} (width : Nat) : List α → List (List α)
  | [] => []
  | a :: l => (a :: l.take (width - 1)) :: pieces width (l.drop (width - 1))
termination_by l => l.length
decreasing_by simp only [List.length_drop, List.length_cons]; omega

def takeRows {α : Type} (width : Nat) : Nat → List α → List (List α)
  | 0, _ => []
  | count + 1, l => l.take width :: takeRows width count (l.drop width)

theorem length_flatten_of_square {α : Type} {rows : List (List α)} {n : Nat}
    (h : ∀ row ∈ rows, row.length = n) : rows.flatten.length = rows.length * n := by
  induction rows with
  | nil => simp
  | cons row rows ih =>
    have hr : row.length = n := h row (by simp)
    have ht := ih fun r hr => h r (by simp [hr])
    simp only [List.flatten_cons, List.length_append, List.length_cons, ht, hr, Nat.add_mul,
      Nat.one_mul]
    omega

namespace SquareMatrix

variable {α : Type}

instance [BEq α] : BEq (SquareMatrix α) where
  beq a b := a.dim == b.dim && a.entries == b.entries

@[ext] theorem ext {a b : SquareMatrix α} (hd : a.dim = b.dim) (he : a.entries = b.entries) :
    a = b := by
  cases a
  cases b
  simp_all

def ofRows (rows : List (List α)) : Except Rejection (SquareMatrix α) :=
  match h : rows.findIdx? (fun row => row.length != rows.length) with
  | some i => .error (.notSquare rows.length i (rows.getD i []).length)
  | none => .ok
    { dim := rows.length
      entries := rows.flatten
      length_entries := length_flatten_of_square fun row hr => by
        simpa using List.findIdx?_eq_none_iff.mp h row hr }

def isEmpty (a : SquareMatrix α) : Bool := a.dim == 0

theorem index_lt (a : SquareMatrix α) {i j : Nat} (h : i < a.dim ∧ j < a.dim) :
    i * a.dim + j < a.entries.length := by
  have hm : (i + 1) * a.dim ≤ a.dim * a.dim := Nat.mul_le_mul_right _ h.1
  rw [a.length_entries]
  rw [Nat.add_mul, Nat.one_mul] at hm
  omega

def get? (a : SquareMatrix α) (i j : Nat) : Option α :=
  if i < a.dim ∧ j < a.dim then a.entries[i * a.dim + j]? else none

def entry (a : SquareMatrix α) (i j : Nat) : Except RangeError α :=
  if h : i < a.dim ∧ j < a.dim then .ok (a.entries.get ⟨i * a.dim + j, a.index_lt h⟩)
  else .error (.entry i j a.dim)

def row (a : SquareMatrix α) (i : Nat) : Except RangeError (List α) :=
  if i < a.dim then .ok ((a.entries.drop (i * a.dim)).take a.dim) else .error (.row i a.dim)

def slices (a : SquareMatrix α) : List (List α) := pieces a.dim a.entries

def toRows (a : SquareMatrix α) : List (List α) := takeRows a.dim a.dim a.entries

end SquareMatrix

end Collocation
