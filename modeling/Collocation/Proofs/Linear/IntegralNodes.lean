import Collocation.Proofs.Linear.PowerSystem
import Mathlib.Algebra.Order.BigOperators.Ring.Finset

/-!
# Integer systems with rational solutions

Over integer nodes the integer solver always answers. What it answers meets all values exactly
if the rational coefficients are integers, and then it is these coefficients: the divisions
that could lose a remainder are those of the right-hand side, and integer coefficients make
them exact.

In any case the answer is the Newton interpolation in which the quotient of every node is
truncated. At its own node an interpolation misses the value by the remainder of the quotient,
and later nodes do not change that, so the error is smaller than the product of the differences
to the nodes before.
-/

set_option autoImplicit false

namespace Collocation

open Polynomial

theorem map_polynomialOf {α β : Type} [CommRing α] [CommRing β] (f : α →+* β) (l : List α) :
    (polynomialOf l).map f = polynomialOf (l.map f) := by
  induction l with
  | nil => simp [polynomialOf]
  | cons a l ih => simp [polynomialOf, ih]

def rationals (xs : List ℤ) : List ℚ := xs.map Int.cast

theorem nodup_rationals {xs : List ℤ} (hd : xs.Nodup) : (rationals xs).Nodup :=
  hd.map Int.cast_injective

@[simp] theorem length_rationals (xs : List ℤ) : (rationals xs).length = xs.length :=
  List.length_map _

theorem rationals_injective : Function.Injective rationals :=
  List.map_injective_iff.mpr Int.cast_injective

theorem map_eval_rationals (p : ℤ[X]) (xs : List ℤ) :
    (rationals xs).map (p.map (Int.castRingHom ℚ)).eval = rationals (xs.map p.eval) := by
  rw [rationals, rationals, List.map_map, List.map_map]
  apply List.map_congr_left
  intro x _
  exact eval_intCast_map (Int.castRingHom ℚ) p x

theorem map_eq_interpolant {xs ys : List ℤ} (hd : xs.Nodup) {p : ℤ[X]}
    (hp : p.degree < xs.length) (hv : xs.map p.eval = ys) :
    p.map (Int.castRingHom ℚ) = interpolant (rationals xs) (rationals ys) := by
  apply eq_interpolant (nodup_rationals hd)
  · rw [length_rationals]
    exact lt_of_le_of_lt degree_map_le hp
  · rw [map_eval_rationals, hv]

theorem coefficientsBelow_map (n : ℕ) (p : ℤ[X]) :
    coefficientsBelow n (p.map (Int.castRingHom ℚ)) = rationals (coefficientsBelow n p) := by
  rw [coefficientsBelow, coefficientsBelow, rationals, List.map_map]
  apply List.map_congr_left
  intro i _
  exact coeff_map _ i

theorem exists_rationals_of_integral {q : List ℚ} (h : ∀ a ∈ q, ∃ k : ℤ, (k : ℚ) = a) :
    ∃ cs : List ℤ, rationals cs = q := by
  induction q with
  | nil => exact ⟨[], rfl⟩
  | cons a q ih =>
    obtain ⟨k, hk⟩ := h a (by simp)
    obtain ⟨cs, hcs⟩ := ih fun b hb => h b (by simp [hb])
    exact ⟨k :: cs, by rw [rationals, List.map_cons, hk, ← hcs, rationals]⟩

/-- The rational coefficients are integers exactly if some integer polynomial of small degree
meets the samples. -/
theorem integral_iff {xs ys : List ℤ} (hd : xs.Nodup) (hl : ys.length = xs.length) :
    (∀ a ∈ coefficientsBelow xs.length (interpolant (rationals xs) (rationals ys)),
      ∃ k : ℤ, (k : ℚ) = a) ↔ ∃ p : ℤ[X], p.degree < xs.length ∧ xs.map p.eval = ys := by
  constructor
  · intro h
    obtain ⟨cs, hcs⟩ := exists_rationals_of_integral h
    have hlen : cs.length = xs.length := by
      rw [← length_rationals cs, hcs, length_coefficientsBelow]
    have hmap : (polynomialOf cs).map (Int.castRingHom ℚ) =
        interpolant (rationals xs) (rationals ys) := by
      rw [map_polynomialOf]
      change polynomialOf (rationals cs) = _
      rw [hcs, polynomialOf_coefficientsBelow]
      rw [← length_rationals xs]
      exact degree_interpolant_lt (nodup_rationals hd) _
    refine ⟨polynomialOf cs, ?_, ?_⟩
    · rw [← hlen]
      exact degree_polynomialOf_lt cs
    · apply rationals_injective
      rw [← map_eval_rationals, hmap]
      apply map_eval_interpolant (nodup_rationals hd)
      rw [length_rationals, length_rationals, hl]
  · rintro ⟨p, hp, hv⟩ a ha
    rw [← map_eq_interpolant hd hp hv, coefficientsBelow_map] at ha
    obtain ⟨k, -, hk⟩ := List.mem_map.mp ha
    exact ⟨k, hk⟩

/-- Integer interpolation is right exactly when it can be. It always answers, the answer meets
the values if and only if the rational coefficients are integers, and then it is these. So
integer coefficients are found again from the values of their polynomial. -/
theorem integer_solution_exact_iff_integral (xs ys : List ℤ) (hd : xs.Nodup)
    (hl : ys.length = xs.length) :
    (∃ c q, integer.solveNodes xs ys = pure c ∧
      rational.solveNodes (rationals xs) (rationals ys) = pure q ∧
      (integer.evaluate xs c = .ok ys ↔ ∀ a ∈ q, ∃ k : ℤ, (k : ℚ) = a) ∧
      (integer.evaluate xs c = .ok ys → rationals c = q)) ∧
    ∀ cs : List ℤ, cs.length = xs.length → (do
      let vs ← integer.evaluate xs cs
      integer.solveNodes xs vs : ExceptT Rejection (Except Trap) (List ℤ)) = pure cs := by
  have hint := Arithmetic.integer_isExact
  let p : ℤ[X] := newton Int.tdiv (xs.getD · 0) (ys.getD · 0) xs.length
  have hp : p.degree < xs.length := degree_newton_lt _ _ _ _
  have hsolve : integer.solveNodes xs ys = pure (coefficientsBelow xs.length p) :=
    hint.solveNodes_of_nodup hd hl
  have hlength : (rationals ys).length = (rationals xs).length := by
    rw [length_rationals, length_rationals, hl]
  have hrational := solveNodes_rational (nodup_rationals hd) hlength
  rw [length_rationals] at hrational
  have hevaluate : integer.evaluate xs (coefficientsBelow xs.length p) = .ok ys ↔
      xs.map p.eval = ys := by
    rw [hint.evaluate_eq, polynomialOf_coefficientsBelow hp]
    exact ⟨Except.ok.inj, congrArg _⟩
  refine ⟨⟨_, _, hsolve, hrational, ?_, ?_⟩, ?_⟩
  · rw [hevaluate, integral_iff hd hl]
    constructor
    · intro hv
      exact ⟨p, hp, hv⟩
    · rintro ⟨r, hr, rfl⟩
      have hsame := hint.solveNodes_eval hd hr
      rw [hsolve, pure_inj] at hsame
      rw [← polynomialOf_coefficientsBelow hp, hsame, polynomialOf_coefficientsBelow hr]
  · intro hc
    rw [← coefficientsBelow_map, map_eq_interpolant hd hp (hevaluate.mp hc)]
  · intro cs hcs
    exact hint.solveNodes_evaluate hd hcs

theorem integer_solution_exact_parabola :
    ([0, 2, -1] : List ℤ).Nodup ∧ ([3, 9, 6] : List ℤ).length = ([0, 2, -1] : List ℤ).length ∧
      (∃ c q, integer.solveNodes [0, 2, -1] [3, 9, 6] = pure c ∧
        rational.solveNodes (rationals [0, 2, -1]) (rationals [3, 9, 6]) = pure q ∧
        (integer.evaluate [0, 2, -1] c = .ok [3, 9, 6] ↔ ∀ a ∈ q, ∃ k : ℤ, (k : ℚ) = a) ∧
        (integer.evaluate [0, 2, -1] c = .ok [3, 9, 6] → rationals c = q)) ∧
      (do
        let vs ← integer.evaluate [0, 2, -1] [3, -1, 2]
        integer.solveNodes [0, 2, -1] vs : ExceptT Rejection (Except Trap) (List ℤ)) =
          pure [3, -1, 2] := by
  have hd : ([0, 2, -1] : List ℤ).Nodup := by decide
  obtain ⟨hright, hback⟩ := integer_solution_exact_iff_integral [0, 2, -1] [3, 9, 6] hd rfl
  exact ⟨hd, rfl, hright, hback [3, -1, 2] rfl⟩

section Truncation

variable {z v : ℕ → ℤ} {c n : ℕ}

/-- The value that is missed is the remainder of the quotient taken at the node. -/
theorem sub_eval_newton_tdiv (z v : ℕ → ℤ) (h : c < n) :
    v c - (newton Int.tdiv z v n).eval (z c) =
      (v c - (newton Int.tdiv z v c).eval (z c)).tmod ((nodal z c).eval (z c)) := by
  rw [eval_newton_of_lt Int.tdiv z v h, newton, eval_add, eval_mul, eval_C, Int.tmod_def]
  ring

theorem abs_tmod_lt (a : ℤ) {b : ℤ} (hb : b ≠ 0) : |a.tmod b| < |b| := by
  rw [Int.abs_eq_natAbs, Int.abs_eq_natAbs, Int.natAbs_tmod]
  exact_mod_cast Nat.mod_lt _ (Int.natAbs_pos.mpr hb)

theorem abs_sub_eval_newton_tdiv_lt (hz : Distinct z n) (h : c < n) :
    |v c - (newton Int.tdiv z v n).eval (z c)| < ∏ j ∈ Finset.range c, |z c - z j| := by
  rw [sub_eval_newton_tdiv z v h, ← Finset.abs_prod, ← Lagrange.eval_nodal]
  exact abs_tmod_lt _ (hz c h)

/-- Over distinct integer nodes the solver returns the coefficients of the Newton interpolation
with truncated quotients, whether or not the system has an integer solution. The polynomial
meets the first value, and misses any other by less than the product of the differences of its
node to the nodes before. -/
theorem integer_solution_truncated (xs ys : List ℤ) (hd : xs.Nodup)
    (hl : ys.length = xs.length) :
    ∃ cs, integer.solveNodes xs ys = pure cs ∧ cs.length = xs.length ∧
      polynomialOf cs = newton Int.tdiv (xs.getD · 0) (ys.getD · 0) xs.length ∧
      (0 < xs.length → integer.evaluateAt (xs.getD 0 0) cs = .ok (ys.getD 0 0)) ∧
      ∀ c < xs.length, ∃ y, integer.evaluateAt (xs.getD c 0) cs = .ok y ∧
        |ys.getD c 0 - y| < ∏ j ∈ Finset.range c, |xs.getD c 0 - xs.getD j 0| := by
  have hint := Arithmetic.integer_isExact
  have hz := (distinct_getD_iff_nodup xs).mpr hd
  have hrun := hint.solveNodes_of_nodup hd hl
  have hp := polynomialOf_coefficientsBelow
    (degree_newton_lt Int.tdiv (xs.getD · 0) (ys.getD · 0) xs.length)
  have herror := fun c (hc : c < xs.length) =>
    abs_sub_eval_newton_tdiv_lt (v := (ys.getD · 0)) hz hc
  generalize newton Int.tdiv (xs.getD · 0) (ys.getD · 0) xs.length = p at hrun hp herror ⊢
  have hvalue : ∀ x, integer.evaluateAt x (coefficientsBelow xs.length p) = .ok (p.eval x) := by
    intro x
    rw [hint.evaluateAt_eq, hp]
  refine ⟨coefficientsBelow xs.length p, hrun, length_coefficientsBelow _ _, hp, ?_, ?_⟩
  · intro hn
    have hfirst := herror 0 hn
    rw [Finset.range_zero, Finset.prod_empty, Int.abs_lt_one_iff, sub_eq_zero] at hfirst
    rw [hvalue, ← hfirst]
  · intro c hc
    exact ⟨_, hvalue _, herror c hc⟩

/-- No integer polynomial of degree at most two has these values: the second quotient is `1 / 2`. -/
theorem integer_solution_truncated_half :
    ([0, 2, -1] : List ℤ).Nodup ∧ ([1, 2, 7] : List ℤ).length = ([0, 2, -1] : List ℤ).length ∧
      integer.solveNodes [0, 2, -1] [1, 2, 7] = pure [1, -4, 2] ∧
      polynomialOf [1, -4, 2] =
        newton Int.tdiv (([0, 2, -1] : List ℤ).getD · 0) (([1, 2, 7] : List ℤ).getD · 0) 3 ∧
      integer.evaluateAt 0 [1, -4, 2] = .ok 1 ∧
      ∃ y, integer.evaluateAt 2 [1, -4, 2] = .ok y ∧ |2 - y| < 2 := by
  have hd : ([0, 2, -1] : List ℤ).Nodup := by decide
  obtain ⟨cs, hrun, -, hnewton, hfirst, herror⟩ :=
    integer_solution_truncated [0, 2, -1] [1, 2, 7] hd rfl
  have hcs : integer.solveNodes [0, 2, -1] [1, 2, 7] = pure [1, -4, 2] := by
    rw [Arithmetic.integer_isExact.solveNodes_eq]
    rfl
  have hsame : cs = [1, -4, 2] := pure_inj.mp (hrun.symm.trans hcs)
  subst hsame
  exact ⟨hd, rfl, hcs, hnewton, hfirst (by decide), herror 1 (by decide)⟩

end Truncation

end Collocation
