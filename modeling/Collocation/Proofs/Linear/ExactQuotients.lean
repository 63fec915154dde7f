import Collocation.Proofs.Arithmetic.Recorded
import Collocation.Proofs.Linear.IntegralNodes
import Collocation.Proofs.Linear.Simulation

/-!
# Integer systems that stay integral

Truncation loses the remainders of quotients and nothing else. A run on integers can keep the
remainder of every division that it performs. As long as they are all zero, the integers are
the rational numbers of the rational run on the same system: the same entries are zero, so the
same pivots are chosen, and both runs end alike.
-/

set_option autoImplicit false

namespace Collocation

def integerWithRemainders : Arithmetic (Recorded (ℤ × ℤ)) ℤ where
  zero := 0
  one := 1
  isZero a := a == 0
  add a b := pure (a + b)
  sub a b := pure (a - b)
  mul a b := pure (a * b)
  div a b :=
    if b = 0 then ⟨[], .error .divisionByZero⟩
    else ⟨[⟨.divide, (a.tdiv b, a.tmod b)⟩], .ok (a.tdiv b)⟩

def Recorded.IsIntegral {β : Type} (x : Recorded (ℤ × ℤ) β) : Prop :=
  ∀ s ∈ x.steps, s.result.2 = 0

instance {β : Type} (x : Recorded (ℤ × ℤ) β) : Decidable x.IsIntegral :=
  inferInstanceAs (Decidable (∀ s ∈ x.steps, s.result.2 = 0))

theorem simulates_integerWithRemainders :
    Simulates (Recorded.forget (ℤ × ℤ)) id integer integerWithRemainders where
  zero_eq := rfl
  one_eq := rfl
  isZero_eq _ := rfl
  add _ _ := rfl
  sub _ _ := rfl
  mul _ _ := rfl
  div a b hb := by
    have hne : b ≠ 0 := Arithmetic.integer_isExact.ne_zero hb
    simp only [integer, integerWithRemainders, id_eq, if_neg hne]
    rfl

theorem outcome_integerWithRemainders (a : SquareMatrix ℤ) (rhs : List ℤ) :
    (integerWithRemainders.solve a rhs).run.outcome = integer.solve a rhs := by
  have h := Recorded.outcome_eq_of_forget_rejections List.map_id_fun
    (simulates_integerWithRemainders.solve a rhs)
  rwa [SquareMatrix.map_id, List.map_id] at h

def whileIntegral : EffectRelation (Except Trap) (Recorded (ℤ × ℤ)) where
  Image g x y := y.IsIntegral → x = y.outcome.map g
  pure _ _ := fun _ => rfl
  bind {_ _ _ _ _ _ x y k l} hx hk := by
    obtain ⟨steps, outcome⟩ := y
    cases outcome with
    | ok d =>
      intro hall
      have hbefore : Recorded.IsIntegral ⟨steps, .ok d⟩ := fun s hs =>
        hall s (List.mem_append_left _ hs)
      have hafter : (l d).IsIntegral := fun s hs => hall s (List.mem_append_right _ hs)
      rw [hx hbefore]
      exact hk d hafter
    | error t =>
      intro hall
      rw [hx hall]
      rfl

theorem cast_tdiv_of_tmod_eq_zero {a b : ℤ} (h : a.tmod b = 0) :
    ((a.tdiv b : ℤ) : ℚ) = a / b := by
  have hdvd := Int.dvd_of_tmod_eq_zero h
  rw [Int.tdiv_eq_ediv_of_dvd hdvd, Int.cast_div_charZero hdvd]

theorem simulates_rational :
    Simulates whileIntegral (Int.cast : ℤ → ℚ) rational integerWithRemainders where
  zero_eq := Int.cast_zero.symm
  one_eq := Int.cast_one.symm
  isZero_eq b := by simp [rational, integerWithRemainders]
  add a b := fun _ => congrArg Except.ok (Int.cast_add a b).symm
  sub a b := fun _ => congrArg Except.ok (Int.cast_sub a b).symm
  mul a b := fun _ => congrArg Except.ok (Int.cast_mul a b).symm
  div a b hb := by
    have hne : b ≠ 0 := Arithmetic.integer_isExact.ne_zero hb
    have hne' : (b : ℚ) ≠ 0 := Int.cast_ne_zero.mpr hne
    intro hall
    simp only [integerWithRemainders, if_neg hne] at hall
    have hrem : a.tmod b = 0 := hall _ (List.mem_singleton_self _)
    simp only [rational, integerWithRemainders, if_neg hne, if_neg hne']
    exact congrArg Except.ok (cast_tdiv_of_tmod_eq_zero hrem).symm

/-- If every division of the integer run on a system leaves the remainder zero, then the
rational run on the same numbers has the same outcome: the same solution, or a refusal at the
same column. -/
theorem integral_run_same_outcome (a : SquareMatrix ℤ) (rhs : List ℤ)
    (hl : rhs.length = a.dim) (hall : (integerWithRemainders.solve a rhs).run.IsIntegral) :
    (integerWithRemainders.solve a rhs).run.outcome = integer.solve a rhs ∧
    ((∃ cs, integer.solve a rhs = pure cs ∧
        rational.solve (a.map Int.cast) (rationals rhs) = pure (rationals cs)) ∨
      ∃ k < a.dim, integer.solve a rhs = throw (.singular k) ∧
        rational.solve (a.map Int.cast) (rationals rhs) = throw (.singular k)) := by
  have hrecord := outcome_integerWithRemainders a rhs
  have hsame : rational.solve (a.map Int.cast) (rationals rhs) =
      Except.map (Except.map rationals) (integer.solve a rhs) := by
    rw [← hrecord]
    exact simulates_rational.solve a rhs hall
  refine ⟨hrecord, ?_⟩
  rcases Arithmetic.integer_isExact.solve_cases a hl with ⟨g, -, hrun⟩ | ⟨k, hk, g, -, -, hrun⟩
  · rw [hrun] at hsame
    exact Or.inl ⟨_, hrun, hsame⟩
  · rw [hrun] at hsame
    exact Or.inr ⟨k, hk, hrun, hsame⟩

theorem integral_run_same_outcome_exchange :
    ([4, 9] : List ℤ).length = 2 ∧
      (integerWithRemainders.solve ⟨2, [0, 2, 3, 3], rfl⟩ [4, 9]).run.IsIntegral ∧
      integer.solve ⟨2, [0, 2, 3, 3], rfl⟩ [4, 9] = pure [1, 2] ∧
      rational.solve ((⟨2, [0, 2, 3, 3], rfl⟩ : SquareMatrix ℤ).map Int.cast)
        (rationals [4, 9]) = pure (rationals [1, 2]) := by
  have hall : (integerWithRemainders.solve ⟨2, [0, 2, 3, 3], rfl⟩ [4, 9]).run.IsIntegral := by
    decide
  have hrun : integer.solve ⟨2, [0, 2, 3, 3], rfl⟩ [4, 9] = pure [1, 2] := rfl
  refine ⟨rfl, hall, hrun, ?_⟩
  rcases (integral_run_same_outcome ⟨2, [0, 2, 3, 3], rfl⟩ [4, 9] rfl hall).2 with
    ⟨cs, hcs, hsame⟩ | ⟨k, -, hk, -⟩
  · rwa [← pure_inj.mp (hrun.symm.trans hcs)] at hsame
  · exact absurd (hk.symm.trans hrun) (throw_ne_pure _ _)

end Collocation
