import Collocation.Arithmetic.Basic
import Collocation.Linear.SquareMatrix

/-!
# Power tables

The power table of `n` nodes is the matrix whose row `i` holds the powers `0, …, n - 1` of
node `i`: multiplying it by a coefficient list evaluates the polynomial at every node. Column
zero is all ones, also for a node that is zero. The table exists for any nodes; the checked
form refuses an empty list and repeated nodes.

Nodes are compared by whatever Boolean equality the number type has; it need not be reflexive
or transitive. The first repetition is the pair of positions that is smallest when pairs are
ordered by their first position and then by their second.
-/

set_option autoImplicit false

namespace Collocation

def mapSized {m : Type → Type} [Monad m] {β α : Type} (f : β → m α) :
    (l : List β) → m { r : List α // r.length = l.length }
  | [] => pure ⟨[], rfl⟩
  | b :: l => do
    let a ← f b
    let r ← mapSized f l
    pure ⟨a :: r.val, by simp [r.property]⟩

def powerGrid {α : Type} (xs : List α) : List (α × Nat) :=
  xs.flatMap fun x => (List.range xs.length).map fun j => (x, j)

theorem length_powerGrid {α : Type} (xs : List α) :
    (powerGrid xs).length = xs.length * xs.length := by
  have h : ∀ (l : List α) (n : Nat),
      (l.flatMap fun x => (List.range n).map fun j => (x, j)).length = l.length * n := by
    intro l n
    induction l with
    | nil => simp
    | cons x l ih =>
      simp only [List.flatMap_cons, List.length_append, List.length_map, List.length_range,
        List.length_cons, ih, Nat.add_mul, Nat.one_mul]
      omega
  exact h xs xs.length

def firstRepetition? {α : Type} [BEq α] : List α → Option (Nat × Nat)
  | [] => none
  | x :: xs =>
    match xs.findIdx? (x == ·) with
    | some j => some (0, j + 1)
    | none => (firstRepetition? xs).map fun p => (p.1 + 1, p.2 + 1)

namespace Arithmetic

variable {m : Type → Type} {α : Type} [Monad m]

def powerTable (A : Arithmetic m α) (xs : List α) : m (SquareMatrix α) := do
  let r ← mapSized (fun p => A.power p.1 p.2) (powerGrid xs)
  pure ⟨xs.length, r.val, r.property.trans (length_powerGrid xs)⟩

def distinctPowerTable [BEq α] (A : Arithmetic m α) (xs : List α) :
    ExceptT Rejection m (SquareMatrix α) :=
  if xs.isEmpty then throw .emptyInput
  else match firstRepetition? xs with
    | some p => throw (.repeatedNode p.1 p.2)
    | none => A.powerTable xs

end Arithmetic

end Collocation
