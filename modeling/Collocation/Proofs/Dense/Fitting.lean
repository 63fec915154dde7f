import Collocation.Proofs.Dense.Routes

/-!
# Fitting a polynomial to its own values

Distinct nodes leave nothing to a fit but the solution of their power table. If the values are
those of a coefficient list that is no longer than the nodes, the solution is that list, filled
up with zeros to one coefficient for each node. Zeros at the end are seen neither by the degree
nor by evaluation.
-/

set_option autoImplicit false

namespace Collocation

open Polynomial

section LastIndex

variable {α : Type} {p : α → Bool}

theorem lastIndex?_eq_none_iff {l : List α} : lastIndex? p l = none ↔ ∀ a ∈ l, p a = false := by
  induction l with
  | nil => simp [lastIndex?]
  | cons a l ih =>
    rw [lastIndex?, List.forall_mem_cons, ← ih]
    cases lastIndex? p l <;> simp

theorem lastIndex?_append {l t : List α} (ht : ∀ a ∈ t, p a = false) :
    lastIndex? p (l ++ t) = lastIndex? p l := by
  induction l with
  | nil => exact lastIndex?_eq_none_iff.mpr ht
  | cons a l ih => rw [List.cons_append, lastIndex?, lastIndex?, ih]

end LastIndex

variable {α : Type} [CommRing α]

def padded (n : ℕ) (q : List α) : List α := q ++ List.replicate (n - q.length) 0

theorem length_padded {n : ℕ} {q : List α} (h : q.length ≤ n) : (padded n q).length = n := by
  rw [padded, List.length_append, List.length_replicate]
  omega

@[simp] theorem polynomialOf_padded (n : ℕ) (q : List α) :
    polynomialOf (padded n q) = polynomialOf q := by
  ext i
  rw [coeff_polynomialOf, coeff_polynomialOf, padded]
  by_cases hi : i < q.length
  · rw [List.getD_append _ _ _ _ hi]
  · have hzero : q.getD i 0 = 0 := List.getD_eq_default q 0 (by omega)
    rw [List.getD_append_right q _ 0 i (by omega), hzero, List.getD_eq_getElem?_getD,
      List.getElem?_getD_replicate_default_eq]

namespace Arithmetic

variable {quot : α → α → α} {A : Arithmetic (Except Trap) α}

theorem IsExact.evaluateAt_padded (h : A.IsExact quot) (x : α) (n : ℕ) (q : List α) :
    A.evaluateAt x (padded n q) = A.evaluateAt x q := by
  rw [h.evaluateAt_eq, h.evaluateAt_eq, polynomialOf_padded]

theorem IsExact.degree?_padded (h : A.IsExact quot) (n : ℕ) (q : List α) :
    (DensePoly.mk (padded n q)).degree? A = (DensePoly.mk q).degree? A := by
  apply lastIndex?_append
  intro a ha
  rw [List.eq_of_mem_replicate ha, (h.isZero_iff 0).mpr rfl]
  rfl

theorem IsExact.degree?_eq_none_iff (h : A.IsExact quot) (q : DensePoly α) :
    q.degree? A = none ↔ ∀ a ∈ q.coefficients, a = 0 := by
  rw [DensePoly.degree?, lastIndex?_eq_none_iff]
  simp only [Bool.not_eq_false', h.isZero_iff]

/-- A coefficient list is found again from its values, filled up to one coefficient for each
node. -/
theorem IsExact.fit_values [IsDomain α] [BEq α] [LawfulBEq α] (h : A.IsExact quot)
    {xs q : List α} (hn : xs ≠ []) (hd : xs.Nodup) (hq : q.length ≤ xs.length) :
    A.fit xs (xs.map (polynomialOf q).eval) = pure ⟨padded xs.length q⟩ := by
  have hlen : (padded xs.length q).length = xs.length := length_padded hq
  have hdeg : (polynomialOf q).degree < xs.length := by
    have hpad := degree_polynomialOf_lt (padded xs.length q)
    rwa [polynomialOf_padded, hlen] at hpad
  have hback : coefficientsBelow xs.length (polynomialOf q) = padded xs.length q := by
    have hpad := coefficientsBelow_polynomialOf (padded xs.length q)
    rwa [polynomialOf_padded, hlen] at hpad
  have hrep : firstRepetition? xs = none := firstRepetition?_eq_none_iff_nodup.mpr hd
  rw [fit_of_distinct hn hrep (List.length_map _), h.solveNodes_eval hd hdeg, pure_bind, hback]

end Arithmetic

/-- Fitting undoes evaluation. Distinct nodes, at least one and at least as many as the
coefficients, give back the coefficients followed by zeros, and with them the degree and the
value at every point. -/
theorem fit_evaluate (q xs : List ℚ) (hd : xs.Nodup) (hn : max q.length 1 ≤ xs.length) :
    ∃ ys p, rational.evaluate xs q = .ok ys ∧ rational.fit xs ys = pure p ∧
      p.coefficients = q ++ List.replicate (xs.length - q.length) 0 ∧
      p.degree? rational = (DensePoly.mk q).degree? rational ∧
      (p.degree? rational = none ↔ ∀ a ∈ q, a = 0) ∧
      ∀ t, ∃ v, p.eval rational t = .ok v ∧ rational.evaluateAt t q = .ok v := by
  have hexact := Arithmetic.rational_isExact
  have hne : xs ≠ [] := by
    rintro rfl
    simp at hn
  have hdegree := hexact.degree?_padded xs.length q
  refine ⟨_, _, hexact.evaluate_eq xs q, hexact.fit_values hne hd (by omega), rfl, hdegree,
    ?_, ?_⟩
  · rw [hdegree]
    exact hexact.degree?_eq_none_iff ⟨q⟩
  · intro t
    refine ⟨(polynomialOf q).eval t, ?_, hexact.evaluateAt_eq t q⟩
    rw [DensePoly.eval, hexact.evaluateAt_padded, hexact.evaluateAt_eq]

theorem fit_evaluate_line :
    ([0, 1 / 2, -3, 5] : List ℚ).Nodup ∧
      max ([1, -2] : List ℚ).length 1 ≤ ([0, 1 / 2, -3, 5] : List ℚ).length ∧
      ∃ ys p, rational.evaluate [0, 1 / 2, -3, 5] [1, -2] = .ok ys ∧
        rational.fit [0, 1 / 2, -3, 5] ys = pure p ∧
        p.coefficients = [1, -2] ++ List.replicate 2 0 ∧
        p.degree? rational = (DensePoly.mk [1, -2]).degree? rational ∧
        (p.degree? rational = none ↔ ∀ a ∈ ([1, -2] : List ℚ), a = 0) ∧
        ∀ t, ∃ v, p.eval rational t = .ok v ∧ rational.evaluateAt t [1, -2] = .ok v :=
  ⟨by norm_num, by decide, fit_evaluate [1, -2] [0, 1 / 2, -3, 5] (by norm_num) (by decide)⟩

end Collocation
