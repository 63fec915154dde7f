import Collocation.Linear.PowerTable
import Collocation.Proofs.Dense.Coefficients
import Collocation.Proofs.Linear.Elimination
import Collocation.Proofs.Linear.Solutions
import Collocation.Proofs.Linear.Views

/-!
# Exact power tables

In exact arithmetic the power table of a list of nodes is a matrix of genuine powers, one row
for each node. Its linear system is what interpolation solves. The table is built by taking
powers, row after row, and evaluation takes its own powers for each term; the table times a
coefficient list is the list of values at the nodes, because a row of powers times the
coefficients is the nested form at the node of that row.
-/

set_option autoImplicit false

namespace Collocation

section Powers

variable {α : Type}

def powerMatrix [Monoid α] (xs : List α) : SquareMatrix α where
  dim := xs.length
  entries := (powerGrid xs).map fun p => p.1 ^ p.2
  length_entries := by rw [List.length_map, length_powerGrid]

theorem toRows_powerMatrix [Monoid α] (xs : List α) :
    (powerMatrix xs).toRows = xs.map fun x => (List.range xs.length).map (x ^ ·) := by
  have hflat : (powerMatrix xs).entries =
      (xs.map fun x => (List.range xs.length).map (x ^ ·)).flatten := by
    simp [powerMatrix, powerGrid, List.flatMap_def, Function.comp_def]
  have hwidth : ∀ row ∈ xs.map fun x => (List.range xs.length).map (x ^ ·),
      row.length = xs.length := by simp
  have hrows := takeRows_flatten hwidth
  rw [List.length_map] at hrows
  rw [SquareMatrix.toRows, hflat]
  exact hrows

theorem augmentedEntry_powerMatrix [CommRing α] {xs : List α} (ys : List α) {r k : ℕ}
    (hr : r < xs.length) : augmentedEntry (powerMatrix xs).toRows ys xs.length r k =
      if k < xs.length then xs.getD r 0 ^ k else ys.getD r 0 := by
  rw [augmentedEntry, toRows_powerMatrix]
  by_cases hk : k < xs.length
  · simp [hr, hk]
  · rw [if_neg hk, if_neg hk]

def Arithmetic.solveNodes {m : Type → Type} [Monad m] (A : Arithmetic m α) (xs ys : List α) :
    ExceptT Rejection m (List α) := do
  let table ← A.powerTable xs
  A.solve table ys

namespace Arithmetic

variable {A : Arithmetic (Except Trap) α}

theorem mapSized_eq {β : Type} {f : β → Except Trap α} {g : β → α} (h : ∀ b, f b = .ok (g b))
    (l : List β) : mapSized f l = .ok ⟨l.map g, List.length_map g⟩ := by
  induction l with
  | nil => rfl
  | cons b l ih =>
    rw [mapSized, h]
    change mapSized f l >>= _ = _
    rw [ih]
    rfl

variable [CommRing α] {quot : α → α → α}

theorem IsExact.powerTable_eq (h : A.IsExact quot) (xs : List α) :
    A.powerTable xs = .ok (powerMatrix xs) := by
  have hpower : ∀ p : α × ℕ, A.power p.1 p.2 = .ok (p.1 ^ p.2) := fun p => h.power_eq p.1 p.2
  rw [powerTable, mapSized_eq hpower]
  rfl

theorem IsExact.solveNodes_eq (h : A.IsExact quot) (xs ys : List α) :
    A.solveNodes xs ys = A.solve (powerMatrix xs) ys := by
  rw [solveNodes, h.powerTable_eq]
  rfl

end Arithmetic

end Powers

section Products

variable {α : Type} [CommRing α]

theorem dot_cons (a b : α) (row c : List α) : dot (a :: row) (b :: c) = a * b + dot row c := by
  rw [dot, dot, List.zipWith_cons_cons, List.sum_cons]

theorem dot_map_mul_left (x : α) (row c : List α) :
    dot (row.map (x * ·)) c = x * dot row c := by
  induction row generalizing c with
  | nil => simp [dot]
  | cons a row ih =>
    cases c with
    | nil => simp [dot]
    | cons b c =>
      rw [List.map_cons, dot_cons, dot_cons, ih]
      ring

theorem dot_powers (x : α) (c : List α) :
    dot ((List.range c.length).map (x ^ ·)) c = horner x c := by
  induction c with
  | nil => rfl
  | cons a c ih =>
    have hrest : ((List.range c.length).map Nat.succ).map (x ^ ·) =
        ((List.range c.length).map (x ^ ·)).map (x * ·) := by
      simp only [List.map_map, Function.comp_def, pow_succ']
    rw [List.length_cons, List.range_succ_eq_map, List.map_cons, dot_cons, pow_zero, one_mul,
      hrest, dot_map_mul_left, ih, horner]

theorem mulVec_powerMatrix {xs c : List α} (hc : c.length = xs.length) :
    (powerMatrix xs).mulVec c = xs.map (horner · c) := by
  rw [SquareMatrix.mulVec, toRows_powerMatrix, List.map_map, ← hc]
  simp only [Function.comp_def, dot_powers]

theorem entry_powerMatrix {xs : List α} {i j : ℕ} (hi : i < xs.length) (hj : j < xs.length) :
    (powerMatrix xs).entry i j = .ok (xs[i] ^ j) := by
  rw [SquareMatrix.entry_eq_ok_iff, SquareMatrix.get?_eq_toRows, toRows_powerMatrix]
  simp [hi, hj]

structure SquareMatrix.EvaluatesAt (V : SquareMatrix α) (A : Arithmetic (Except Trap) α)
    (xs : List α) : Prop where
  dim_eq : V.dim = xs.length
  entry_eq (i j : ℕ) (hi : i < xs.length) (hj : j < xs.length) :
    V.entry i j = .ok (List.replicate j xs[i]).prod
  mulVec_eq (c : List α) (hc : c.length = xs.length) : A.evaluate xs c = .ok (V.mulVec c)

namespace Arithmetic

variable {quot : α → α → α} {A : Arithmetic (Except Trap) α}

theorem IsExact.evaluate_horner (h : A.IsExact quot) (xs c : List α) :
    A.evaluate xs c = .ok (xs.map (horner · c)) :=
  mapM_eq_ok_map fun x _ => h.evaluateAt_horner x c

theorem IsExact.powerMatrix_evaluatesAt (h : A.IsExact quot) (xs : List α) :
    (powerMatrix xs).EvaluatesAt A xs where
  dim_eq := rfl
  entry_eq i j hi hj := by rw [entry_powerMatrix hi hj, List.prod_replicate]
  mulVec_eq c hc := by rw [h.evaluate_horner, mulVec_powerMatrix hc]

end Arithmetic

/-- Over rational numbers and over integers every list of nodes has a table, its entries are the
repeated products of the nodes, and the table times any coefficients is their evaluation. -/
theorem powerTable_evaluates :
    (∀ xs : List ℚ, ∃ V, rational.powerTable xs = .ok V ∧ V.EvaluatesAt rational xs) ∧
    ∀ xs : List ℤ, ∃ V, integer.powerTable xs = .ok V ∧ V.EvaluatesAt integer xs := by
  constructor
  · intro xs
    have h := Arithmetic.rational_isExact
    exact ⟨powerMatrix xs, h.powerTable_eq xs, h.powerMatrix_evaluatesAt xs⟩
  · intro xs
    have h := Arithmetic.integer_isExact
    exact ⟨powerMatrix xs, h.powerTable_eq xs, h.powerMatrix_evaluatesAt xs⟩

end Products

end Collocation
