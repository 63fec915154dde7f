import Collocation.Arithmetic.Basic
import Collocation.Proofs.Arithmetic.Exactness
import Mathlib.Algebra.Polynomial.Degree.Operations
import Mathlib.Algebra.Polynomial.Eval.Coeff
import Mathlib.Data.List.GetD

/-!
# Coefficient lists as polynomials

A coefficient list denotes a polynomial, and exact evaluation of the list computes the value
of that polynomial. Lists of a fixed length are the same as polynomials of smaller degree.
-/

set_option autoImplicit false

namespace Collocation

open Polynomial

variable {α : Type} [CommRing α]

noncomputable def polynomialOf : List α → α[X]
  | [] => 0
  | a :: l => C a + X * polynomialOf l

def coefficientsBelow (n : ℕ) (p : α[X]) : List α := (List.range n).map p.coeff

@[simp] theorem length_coefficientsBelow (n : ℕ) (p : α[X]) :
    (coefficientsBelow n p).length = n := by
  simp [coefficientsBelow]

@[simp] theorem coeff_polynomialOf (l : List α) (i : ℕ) : (polynomialOf l).coeff i = l.getD i 0 := by
  induction l generalizing i with
  | nil => simp [polynomialOf]
  | cons a l ih =>
    cases i with
    | zero => simp [polynomialOf]
    | succ i =>
      rw [polynomialOf, coeff_add, coeff_C_succ, zero_add, coeff_X_mul, ih]
      rfl

theorem degree_polynomialOf_lt (l : List α) : (polynomialOf l).degree < l.length := by
  rw [degree_lt_iff_coeff_zero]
  intro i hi
  rw [coeff_polynomialOf]
  exact List.getD_eq_default l 0 hi

theorem polynomialOf_coefficientsBelow {n : ℕ} {p : α[X]} (hp : p.degree < n) :
    polynomialOf (coefficientsBelow n p) = p := by
  ext i
  rw [coeff_polynomialOf]
  by_cases hi : i < n
  · simp [coefficientsBelow, hi]
  · have hz := (degree_lt_iff_coeff_zero p n).mp hp i (not_lt.mp hi)
    rw [hz]
    exact List.getD_eq_default _ 0 (by simpa [coefficientsBelow] using hi)

theorem coefficientsBelow_polynomialOf (l : List α) :
    coefficientsBelow l.length (polynomialOf l) = l := by
  apply List.ext_getElem (length_coefficientsBelow _ _)
  intro i hi hl
  simp [coefficientsBelow, coeff_polynomialOf, hl]

namespace Arithmetic

variable {quot : α → α → α} {A : Arithmetic (Except Trap) α}

theorem IsExact.addTerm_eq (h : A.IsExact quot) (x acc a : α) (i : ℕ) :
    A.addTerm x acc (a, i) = .ok (acc + a * x ^ i) := by
  rw [addTerm, h.power_eq]
  change A.mul a (x ^ i) >>= A.add acc = _
  rw [h.mul_eq]
  exact h.add_eq _ _

/-- Evaluation from the middle of a list on, where the next power is `i`. -/
theorem IsExact.foldlM_addTerm (h : A.IsExact quot) (x acc : α) (l : List α) (i : ℕ) :
    (l.zipIdx i).foldlM (A.addTerm x) acc = .ok (acc + x ^ i * (polynomialOf l).eval x) := by
  induction l generalizing acc i with
  | nil => simp [polynomialOf, pure, Except.pure]
  | cons a l ih =>
    rw [List.zipIdx_cons, List.foldlM_cons, h.addTerm_eq]
    change (l.zipIdx (i + 1)).foldlM (A.addTerm x) (acc + a * x ^ i) = _
    rw [ih, polynomialOf, eval_add, eval_C, eval_mul, eval_X, pow_succ]
    congr 1
    ring

theorem IsExact.evaluateAt_eq (h : A.IsExact quot) (x : α) (l : List α) :
    A.evaluateAt x l = .ok ((polynomialOf l).eval x) := by
  rw [evaluateAt, h.zero_eq, h.foldlM_addTerm, zero_add, pow_zero, one_mul]

theorem IsExact.evaluate_eq (h : A.IsExact quot) (xs l : List α) :
    A.evaluate xs l = .ok (xs.map fun x => (polynomialOf l).eval x) := by
  simp only [evaluate, h.evaluateAt_eq]
  exact List.mapM_pure

end Arithmetic

/-! The nested form of a polynomial needs no powers: it works from the last coefficient to the
first, multiplies what it has by the point and adds the next coefficient. Exact evaluation forms
every power anew and adds the terms in ascending order. Both have the same value, and
coefficients that are zero at the end of the list add nothing to it. -/

def horner (x : α) : List α → α
  | [] => 0
  | a :: l => a + x * horner x l

theorem horner_append (x : α) (l t : List α) :
    horner x (l ++ t) = horner x l + x ^ l.length * horner x t := by
  induction l with
  | nil => simp [horner]
  | cons a l ih =>
    rw [List.cons_append, horner, horner, ih, List.length_cons, pow_succ]
    ring

theorem horner_replicate_zero (x : α) (k : ℕ) : horner x (List.replicate k 0) = 0 := by
  induction k with
  | zero => rfl
  | succ k ih => rw [List.replicate_succ, horner, ih, mul_zero, add_zero]

theorem horner_append_zeros (x : α) (l : List α) (k : ℕ) :
    horner x (l ++ List.replicate k 0) = horner x l := by
  rw [horner_append, horner_replicate_zero, mul_zero, add_zero]

theorem eval_polynomialOf (x : α) (l : List α) : (polynomialOf l).eval x = horner x l := by
  induction l with
  | nil => exact Polynomial.eval_zero
  | cons a l ih =>
    rw [polynomialOf, Polynomial.eval_add, Polynomial.eval_C, Polynomial.eval_mul,
      Polynomial.eval_X, ih, horner]

namespace Arithmetic

variable {quot : α → α → α} {A : Arithmetic (Except Trap) α}

theorem IsExact.evaluateAt_horner (h : A.IsExact quot) (x : α) (l : List α) :
    A.evaluateAt x l = .ok (horner x l) := by
  rw [h.evaluateAt_eq, eval_polynomialOf]

theorem IsExact.evaluateAt_append_zeros (h : A.IsExact quot) (x : α) (l : List α) (k : ℕ) :
    A.evaluateAt x (l ++ List.replicate k 0) = A.evaluateAt x l := by
  rw [h.evaluateAt_horner, h.evaluateAt_horner, horner_append_zeros]

end Arithmetic

/-- Over rational numbers and over integers, adding up the terms gives the value of the nested
form, also if zeros follow the coefficients. -/
theorem evaluateAt_eq_horner :
    (∀ (x : ℚ) (c : List ℚ), rational.evaluateAt x c = .ok (horner x c) ∧
      ∀ k, rational.evaluateAt x (c ++ List.replicate k 0) = rational.evaluateAt x c) ∧
    ∀ (x : ℤ) (c : List ℤ), integer.evaluateAt x c = .ok (horner x c) ∧
      ∀ k, integer.evaluateAt x (c ++ List.replicate k 0) = integer.evaluateAt x c := by
  constructor
  · intro x c
    have h := Arithmetic.rational_isExact
    exact ⟨h.evaluateAt_horner x c, h.evaluateAt_append_zeros x c⟩
  · intro x c
    have h := Arithmetic.integer_isExact
    exact ⟨h.evaluateAt_horner x c, h.evaluateAt_append_zeros x c⟩

end Collocation
