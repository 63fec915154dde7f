import Collocation.Arithmetic.Machine
import Collocation.Dense.Polynomial
import Collocation.Proofs.Samples.Repetition
import Collocation.Proofs.Samples.Interpolation

/-!
# Two routes to a fitted polynomial

A polynomial is fitted directly, or by supplying a sample set, running it, and taking the
coefficients of the report. Both routes come down to solving the power table of distinct nodes,
with the same operations in the same order. On samples of equal length they also refuse for the
same reasons. Other samples are refused by both, directly for their lengths, and part by part
for the first fault that is found.
-/

set_option autoImplicit false

namespace Collocation

namespace Arithmetic

variable {m : Type → Type} {α : Type} [Monad m] [BEq α] {A : Arithmetic m α} {xs ys : List α}

theorem fit_of_length_ne (hl : xs.length ≠ ys.length) :
    A.fit xs ys = throw (.unequalLength xs.length ys.length) := by
  rw [fit, if_neg hl]

theorem fitByReport_of_refused {e : Rejection} (h : SampleSet.ofSamples xs ys = .error e) :
    A.fitByReport xs ys = throw e := by
  rw [fitByReport, h]

variable [LawfulMonad m]

theorem fit_of_distinct (hn : xs ≠ []) (hr : firstRepetition? xs = none)
    (hl : ys.length = xs.length) :
    A.fit xs ys = do
      let c ← A.solveNodes xs ys
      return ⟨c⟩ := by
  rw [fit, if_pos hl.symm, distinctPowerTable_of_distinct hn hr, solveNodes, bind_assoc]

theorem fitByReport_of_distinct (hn : xs ≠ []) (hr : firstRepetition? xs = none)
    (hl : ys.length = xs.length) :
    A.fitByReport xs ys = do
      let c ← A.solveNodes xs ys
      return ⟨c⟩ := by
  have hrep : SampleSet.repetition? ⟨xs, ys, [], true⟩ xs = none := hr
  have hvalid : SampleSet.validate ⟨xs, ys, [], true⟩ = .ok () := by
    rw [SampleSet.validate_of_matched hn hl, hrep]
    rfl
  have hnone : ∀ c, A.evaluate [] c = pure [] := fun _ => rfl
  rw [fitByReport, SampleSet.ofSamples_of_matched hn hr hl]
  simp only [interpolate_of_valid hvalid, bind_assoc, pure_bind, hnone, liftM_pure]
  rfl

theorem fit_eq_fitByReport (hl : xs.length = ys.length) : A.fit xs ys = A.fitByReport xs ys := by
  by_cases hn : xs = []
  · subst hn
    rw [fit, if_pos hl, fitByReport_of_refused (SampleSet.ofSamples_nil ys)]
    exact throw_bind _ _
  cases hr : firstRepetition? xs with
  | none => rw [fit_of_distinct hn hr hl.symm, fitByReport_of_distinct hn hr hl.symm]
  | some p =>
    have hfirst := isFirstRepetition_of_eq_some hr
    rw [fit, if_pos hl, distinctPowerTable_of_repeated hfirst, throw_bind,
      fitByReport_of_refused (SampleSet.ofSamples_of_repeated hfirst ys)]

end Arithmetic

/-- Both routes have the same outcome on samples of equal length, for every number type and
every effect of its operations, traps included. Samples of different lengths are refused by
both, each in its own order of checks. -/
theorem fitting_routes_agree {m : Type → Type} {α : Type} [Monad m] [LawfulMonad m] [BEq α]
    (A : Arithmetic m α) (xs ys : List α) :
    (xs.length = ys.length → A.fit xs ys = A.fitByReport xs ys) ∧
    (xs.length ≠ ys.length →
      A.fit xs ys = throw (.unequalLength xs.length ys.length) ∧
      (xs = [] → A.fitByReport xs ys = throw .emptyInput) ∧
      (∀ i j, IsFirstRepetition xs i j → A.fitByReport xs ys = throw (.repeatedNode i j)) ∧
      (xs ≠ [] → (∀ i j, ¬ Repeats xs i j) → ys = [] →
        A.fitByReport xs ys = throw .emptyInput) ∧
      (xs ≠ [] → (∀ i j, ¬ Repeats xs i j) → ys ≠ [] →
        A.fitByReport xs ys = throw (.unequalLength xs.length ys.length))) := by
  constructor
  · exact Arithmetic.fit_eq_fitByReport
  intro hl
  constructor
  · exact Arithmetic.fit_of_length_ne hl
  constructor
  · intro hn
    subst hn
    exact Arithmetic.fitByReport_of_refused (SampleSet.ofSamples_nil ys)
  constructor
  · intro i j hfirst
    exact Arithmetic.fitByReport_of_refused (SampleSet.ofSamples_of_repeated hfirst ys)
  constructor
  · intro hn hr hy
    subst hy
    have hnone := firstRepetition?_eq_none_iff.mpr hr
    exact Arithmetic.fitByReport_of_refused (SampleSet.ofSamples_without_values hn hnone)
  · intro hn hr hy
    have hnone := firstRepetition?_eq_none_iff.mpr hr
    exact Arithmetic.fitByReport_of_refused
      (SampleSet.ofSamples_of_length_ne hn hnone hy (Ne.symm hl))

/-- A power that overflows stops both routes. With a node repeated and too few values the two
find different faults. -/
theorem fitting_routes_agree_overflow :
    ([2 ^ 40, 0, 1] : List Int64).length = ([5, 0, 7] : List Int64).length ∧
      int64.fit [2 ^ 40, 0, 1] [5, 0, 7] = .error (.overflow .multiply) ∧
      int64.fit [2 ^ 40, 0, 1] [5, 0, 7] = int64.fitByReport [2 ^ 40, 0, 1] [5, 0, 7] ∧
      ([1, 2, 1] : List Int64).length ≠ ([5] : List Int64).length ∧
      int64.fit [1, 2, 1] [5] = throw (.unequalLength 3 1) ∧
      int64.fitByReport [1, 2, 1] [5] = throw (.repeatedNode 0 2) := by
  have hequal := (fitting_routes_agree int64 [2 ^ 40, 0, 1] [5, 0, 7]).1 rfl
  have hother := (fitting_routes_agree int64 [1, 2, 1] [5]).2 (by decide)
  exact ⟨rfl, by cbv, hequal, by decide, hother.1,
    hother.2.2.1 0 2 (firstRepetition?_eq_some_iff.mp rfl)⟩

end Collocation
