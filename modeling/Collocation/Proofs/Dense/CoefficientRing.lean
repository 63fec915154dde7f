import Collocation.Proofs.Dense.Fitting

/-!
# Sums and products of coefficient lists

Coefficient lists are added position by position, the shorter one filled up with zeros, and
multiplied by convolution: position `k` of the product collects the products of all pairs of
coefficients whose positions add up to `k`. These are the operations of polynomials, so exact
evaluation at fixed points carries them over to the lists of values.
-/

set_option autoImplicit false

namespace Collocation

open Polynomial

variable {α : Type} [CommRing α]

def sumOf (a b : List α) : List α :=
  List.zipWith (· + ·) (padded (max a.length b.length) a) (padded (max a.length b.length) b)

def multipleOf (s : α) (a : List α) : List α := a.map (s * ·)

def convolution (a b : List α) : List α :=
  (List.range (a.length + b.length - 1)).map fun k =>
    ∑ i ∈ Finset.range (k + 1), a.getD i 0 * b.getD (k - i) 0

theorem polynomialOf_zipWith_add {a b : List α} (h : a.length = b.length) :
    polynomialOf (List.zipWith (· + ·) a b) = polynomialOf a + polynomialOf b := by
  induction a generalizing b with
  | nil =>
    rw [List.eq_nil_of_length_eq_zero h.symm]
    simp [polynomialOf]
  | cons x a ih =>
    cases b with
    | nil => cases h
    | cons y b =>
      rw [List.zipWith_cons_cons, polynomialOf, polynomialOf, polynomialOf,
        ih (Nat.succ.inj h), C_add]
      ring

@[simp] theorem polynomialOf_sumOf (a b : List α) :
    polynomialOf (sumOf a b) = polynomialOf a + polynomialOf b := by
  have hlen : (padded (max a.length b.length) a).length =
      (padded (max a.length b.length) b).length := by
    rw [length_padded (Nat.le_max_left _ _), length_padded (Nat.le_max_right _ _)]
  rw [sumOf, polynomialOf_zipWith_add hlen, polynomialOf_padded, polynomialOf_padded]

@[simp] theorem polynomialOf_multipleOf (s : α) (a : List α) :
    polynomialOf (multipleOf s a) = C s * polynomialOf a := by
  induction a with
  | nil => simp [multipleOf, polynomialOf]
  | cons x a ih =>
    change C (s * x) + X * polynomialOf (multipleOf s a) = C s * (C x + X * polynomialOf a)
    rw [ih, C_mul]
    ring

/-- Positions that add up to more than the last position of the product lie outside one of the
two lists. -/
theorem getD_mul_getD_eq_zero {a b : List α} {i j : ℕ} (h : a.length + b.length - 1 ≤ i + j) :
    a.getD i 0 * b.getD j 0 = 0 := by
  by_cases hi : i < a.length
  · have hj : b.length ≤ j := by omega
    rw [List.getD_eq_default b 0 hj, mul_zero]
  · rw [List.getD_eq_default a 0 (not_lt.mp hi), zero_mul]

@[simp] theorem polynomialOf_convolution (a b : List α) :
    polynomialOf (convolution a b) = polynomialOf a * polynomialOf b := by
  ext k
  rw [coeff_polynomialOf, coeff_mul, Finset.Nat.sum_antidiagonal_eq_sum_range_succ_mk]
  simp only [coeff_polynomialOf]
  by_cases hk : k < a.length + b.length - 1
  · rw [convolution, getD_map_range hk]
  · have hlen : (convolution a b).length ≤ k := by simpa [convolution] using hk
    rw [List.getD_eq_default _ 0 hlen]
    symm
    apply Finset.sum_eq_zero
    intro i hi
    have hik : i ≤ k := Nat.lt_succ_iff.mp (Finset.mem_range.mp hi)
    exact getD_mul_getD_eq_zero (by omega)

example : convolution [1, 1] [1, -1, 2] = ([1, 0, 1, 2] : List ℤ) := by decide

section Values

structure IsValueHomomorphism (xs : List α) (values : List α → List α) : Prop where
  length_eq (a : List α) : (values a).length = xs.length
  zero : values [] = List.replicate xs.length 0
  one : values [1] = List.replicate xs.length 1
  sum (a b : List α) : values (sumOf a b) = List.zipWith (· + ·) (values a) (values b)
  multiple (s : α) (a : List α) : values (multipleOf s a) = (values a).map (s * ·)
  product (a b : List α) :
    values (convolution a b) = List.zipWith (· * ·) (values a) (values b)

theorem isValueHomomorphism_eval (xs : List α) :
    IsValueHomomorphism xs fun a => xs.map fun x => (polynomialOf a).eval x where
  length_eq a := List.length_map _
  zero := by simp [polynomialOf]
  one := by simp [polynomialOf]
  sum a b := by simp only [polynomialOf_sumOf, eval_add, List.zipWith_map, List.zipWith_self]
  multiple s a := by simp [Function.comp_def]
  product a b := by
    simp only [polynomialOf_convolution, eval_mul, List.zipWith_map, List.zipWith_self]

end Values

/-- Evaluation at fixed points is a ring homomorphism on coefficient lists, over rational numbers
and over integers. It never traps. -/
theorem evaluate_homomorphism :
    (∀ xs : List ℚ, ∃ values, (∀ a, rational.evaluate xs a = .ok (values a)) ∧
      IsValueHomomorphism xs values) ∧
    ∀ xs : List ℤ, ∃ values, (∀ a, integer.evaluate xs a = .ok (values a)) ∧
      IsValueHomomorphism xs values := by
  constructor
  · intro xs
    exact ⟨_, Arithmetic.rational_isExact.evaluate_eq xs, isValueHomomorphism_eval xs⟩
  · intro xs
    exact ⟨_, Arithmetic.integer_isExact.evaluate_eq xs, isValueHomomorphism_eval xs⟩

end Collocation
