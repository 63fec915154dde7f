import Collocation.Proofs.Linear.PowerSystem
import Collocation.Proofs.Samples.Supply
import Collocation.Samples.Report

/-!
# Interpolation of a sample set

A valid sample set is interpolated by solving its power table and evaluating the solution at
the query points. Over the rationals a fresh set of distinct nodes always gets a report: the
coefficients meet every sample, and the values are those of the Lagrange form.
-/

set_option autoImplicit false

namespace Collocation

variable {α : Type}

namespace Arithmetic

section AnyEffect

variable {m : Type → Type} [Monad m] [BEq α] {A : Arithmetic m α} {s : SampleSet α}

theorem interpolate_of_invalid {e : Rejection} (hv : s.validate = .error e) :
    A.interpolate s = throw e := by
  rw [interpolate, hv]

theorem interpolate_of_valid [LawfulMonad m] (hv : s.validate = .ok ()) :
    A.interpolate s = do
      let c ← A.solveNodes s.nodes s.values
      let v ← A.evaluate s.queries c
      return ⟨s.nodes.length, s.queries.length, c, v⟩ := by
  rw [interpolate, hv, solveNodes, bind_assoc]
  rfl

end AnyEffect

variable [BEq α] {A : Arithmetic (Except Trap) α} {s : SampleSet α} [CommRing α]
  {quot : α → α → α}

theorem IsExact.interpolate_of_validate (h : A.IsExact quot) (hv : s.validate = .ok ()) :
    A.interpolate s = do
      let c ← A.solveNodes s.nodes s.values
      return ⟨s.nodes.length, s.queries.length, c,
        s.queries.map fun x => (polynomialOf c).eval x⟩ := by
  rw [interpolate_of_valid hv]
  simp only [h.evaluate_eq]
  rfl

end Arithmetic

structure Report.Interpolates (r : Report ℚ) (xs ys qs : List ℚ) : Prop where
  samples_eq : r.samples = xs.length
  length_coefficients : r.coefficients.length = xs.length
  queries_eq : r.queries = qs.length
  length_values : r.values.length = qs.length
  meets (i : ℕ) (hx : i < xs.length) (hy : i < ys.length) :
    rational.evaluateAt xs[i] r.coefficients = .ok ys[i]
  values_eq (k : ℕ) (hv : k < r.values.length) (hq : k < qs.length) :
    r.values[k] = lagrangeValue xs ys qs[k]

theorem report_interpolates {xs ys : List ℚ} (hd : xs.Nodup) (hl : ys.length = xs.length)
    (qs : List ℚ) :
    Report.Interpolates ⟨xs.length, qs.length, coefficientsBelow xs.length (interpolant xs ys),
      qs.map (interpolant xs ys).eval⟩ xs ys qs where
  samples_eq := rfl
  length_coefficients := length_coefficientsBelow _ _
  queries_eq := rfl
  length_values := List.length_map _
  meets i hx hy := by
    have hnode : (interpolant xs ys).eval xs[i] = ys[i] := by
      have hall := congrArg (·.getD i 0) (map_eval_interpolant hd hl)
      simpa [hx, hy] using hall
    rw [Arithmetic.rational_isExact.evaluateAt_eq, polynomialOf_interpolant hd, hnode]
  values_eq k hv hq := by
    rw [List.getElem_map, eval_interpolant]

/-- Nothing else interpolates samples with distinct nodes. -/
theorem Report.Interpolates.eq {r : Report ℚ} {xs ys qs : List ℚ} (h : r.Interpolates xs ys qs)
    (hd : xs.Nodup) (hl : ys.length = xs.length) :
    r = ⟨xs.length, qs.length, coefficientsBelow xs.length (interpolant xs ys),
      qs.map (interpolant xs ys).eval⟩ := by
  have hdeg : (polynomialOf r.coefficients).degree < xs.length := by
    rw [← h.length_coefficients]
    exact degree_polynomialOf_lt _
  have hnodes : xs.map (polynomialOf r.coefficients).eval = ys := by
    apply List.ext_getElem
    · rw [List.length_map, hl]
    · intro i hi hy
      have hx : i < xs.length := by rwa [List.length_map] at hi
      have hmeet := h.meets i hx hy
      rw [Arithmetic.rational_isExact.evaluateAt_eq] at hmeet
      rw [List.getElem_map, Except.ok.inj hmeet]
  have hcoeff : r.coefficients = coefficientsBelow xs.length (interpolant xs ys) := by
    rw [← eq_interpolant hd hdeg hnodes, ← h.length_coefficients, coefficientsBelow_polynomialOf]
  have hvalues : r.values = qs.map (interpolant xs ys).eval := by
    apply List.ext_getElem
    · rw [List.length_map, h.length_values]
    · intro k hk hq
      have hkq : k < qs.length := by rwa [List.length_map] at hq
      rw [h.values_eq k hk hkq, List.getElem_map, eval_interpolant]
  cases r
  rw [Report.mk.injEq]
  exact ⟨h.samples_eq, h.queries_eq, hcoeff, hvalues⟩

/-- Nodes, values and query points supplied in this order are accepted, and the run answers
with the interpolation of the samples, inside and outside the range of the nodes. -/
theorem fresh_samples_interpolate (xs ys qs : List ℚ) (hn : xs ≠ []) (hd : xs.Nodup)
    (hl : ys.length = xs.length) :
    ∃ s r, (do
        let s ← SampleSet.empty.setNodes xs
        let s ← s.setValues ys
        return s.setQueries qs) = Except.ok s ∧
      rational.interpolate s = pure r ∧ r.Interpolates xs ys qs := by
  have hrep : firstRepetition? xs = none := firstRepetition?_eq_none_iff_nodup.mpr hd
  have hsupply := SampleSet.setNodes_bind_setValues (s := SampleSet.empty) hn rfl hrep hl
  have hvalid : SampleSet.validate ⟨xs, ys, qs, true⟩ = .ok () := by
    rw [SampleSet.validate_of_matched hn hl, SampleSet.repetition?, if_pos rfl, hrep]
    rfl
  refine ⟨⟨xs, ys, qs, true⟩, _, ?_, ?_, report_interpolates hd hl qs⟩
  · rw [← bind_assoc, hsupply]
    rfl
  · rw [Arithmetic.rational_isExact.interpolate_of_validate hvalid, solveNodes_rational hd hl,
      pure_bind, polynomialOf_interpolant hd]

theorem fresh_samples_interpolate_parabola :
    ([0, 1 / 2, -2] : List ℚ) ≠ [] ∧ ([0, 1 / 2, -2] : List ℚ).Nodup ∧
      lagrangeValue [0, 1 / 2, -2] [1, 5 / 4, 5] (10 : ℚ) = 101 ∧
      ∃ s r, (do
          let s ← SampleSet.empty.setNodes [0, 1 / 2, -2]
          let s ← s.setValues [1, 5 / 4, 5]
          return s.setQueries [10, -1]) = Except.ok s ∧
        rational.interpolate s = pure r ∧
        r.Interpolates [0, 1 / 2, -2] [1, 5 / 4, 5] [10, -1] :=
  ⟨by simp, by norm_num, by norm_num [lagrangeValue, Finset.sum_range_succ, Finset.prod],
    fresh_samples_interpolate _ _ _ (by simp) (by norm_num) rfl⟩

end Collocation
