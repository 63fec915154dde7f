import Collocation.Proofs.Dense.Routes
import Collocation.Proofs.Linear.InPlace
import Collocation.Proofs.Linear.RightHandSide
import Collocation.Proofs.Numeral.Coordinate
import Collocation.Proofs.Samples.Simulation

/-!
# Every input is answered

With operations that only a zero divisor can trap, every input leads to a result or to a refusal,
also if the solver works in place. Systems that come from samples have right-hand sides of the
right length, so a mismatch of dimensions is never what a run or a fit is refused for. Reading a
coordinate forms a fraction only after its denominator was found not to be zero.
-/

set_option autoImplicit false

namespace Collocation

variable {α : Type} {A : Arithmetic (Except Trap) α} {xs ys : List α} {e : Rejection}

namespace Arithmetic

theorem dim_powerTable {V : SquareMatrix α} (h : A.powerTable xs = .ok V) :
    V.dim = xs.length := by
  obtain ⟨r, -, hV⟩ := bind_eq_ok_iff.mp h
  rw [← Except.ok.inj hV]

theorem solveNodes_eq_throw (hl : ys.length = xs.length) (h : A.solveNodes xs ys = throw e) :
    ∃ c < xs.length, e = .singular c := by
  obtain ⟨V, hV, hsolve⟩ := liftM_bind_eq_throw_iff.mp h
  have hdim := dim_powerTable hV
  rw [← hdim]
  exact solve_eq_throw (hl.trans hdim.symm) hsolve

end Arithmetic

section Samples

variable [BEq α] {s : SampleSet α}

theorem SampleSet.length_of_validate (h : s.validate = .ok ()) :
    s.values.length = s.nodes.length := by
  by_contra hl
  rw [validate, if_pos (Ne.symm hl)] at h
  split at h <;> cases h

theorem SampleSet.validate_ne_mismatch (s : SampleSet α) (rows entries : ℕ) :
    s.validate ≠ .error (.dimensionMismatch rows entries) := by
  rw [validate]
  split
  · simp
  · split
    · simp
    · split <;> simp

namespace Arithmetic

/-- What a run is refused for: a fault of the set, or a missing pivot. -/
theorem interpolate_eq_throw (h : A.interpolate s = throw e) :
    s.validate = .error e ∨ ∃ c < s.nodes.length, e = .singular c := by
  cases hv : s.validate with
  | error e' =>
    rw [interpolate_of_invalid hv, throw_inj] at h
    rw [h]
    exact Or.inl rfl
  | ok u =>
    rw [interpolate_of_valid hv] at h
    rcases bind_eq_throw_iff.mp h with hsolve | ⟨c, -, hvalues⟩
    · exact Or.inr (solveNodes_eq_throw (SampleSet.length_of_validate hv) hsolve)
    · obtain ⟨v, -, hreport⟩ := liftM_bind_eq_throw_iff.mp hvalues
      exact absurd hreport (pure_ne_throw _ e)

theorem interpolate_ne_mismatch (s : SampleSet α) (rows entries : ℕ) :
    A.interpolate s ≠ throw (.dimensionMismatch rows entries) := by
  intro h
  rcases interpolate_eq_throw h with hinvalid | ⟨c, -, hsingular⟩
  · exact s.validate_ne_mismatch rows entries hinvalid
  · cases hsingular

/-- What a fit is refused for: its lengths, its nodes, or a missing pivot. -/
theorem fit_eq_throw (h : A.fit xs ys = throw e) :
    e = .unequalLength xs.length ys.length ∨ e = .emptyInput ∨
      (∃ i j, e = .repeatedNode i j) ∨ ∃ c < xs.length, e = .singular c := by
  by_cases hl : xs.length = ys.length
  · right
    by_cases hn : xs = []
    · subst hn
      have hempty : A.fit [] ys = throw .emptyInput := by
        rw [fit, if_pos hl]
        exact throw_bind _ _
      rw [hempty, throw_inj] at h
      exact Or.inl h.symm
    cases hr : firstRepetition? xs with
    | some p =>
      rw [fit, if_pos hl, distinctPowerTable_of_repeated (isFirstRepetition_of_eq_some hr),
        throw_bind, throw_inj] at h
      exact Or.inr (Or.inl ⟨p.1, p.2, h.symm⟩)
    | none =>
      rw [fit_of_distinct hn hr hl.symm] at h
      rcases bind_eq_throw_iff.mp h with hsolve | ⟨c, -, hresult⟩
      · exact Or.inr (Or.inr (solveNodes_eq_throw hl.symm hsolve))
      · exact absurd hresult (pure_ne_throw _ _)
  · rw [fit_of_length_ne hl, throw_inj] at h
    exact Or.inl h.symm

theorem fit_ne_mismatch (xs ys : List α) (rows entries : ℕ) :
    A.fit xs ys ≠ throw (.dimensionMismatch rows entries) := by
  intro h
  rcases fit_eq_throw h with hlength | hempty | ⟨i, j, hrepeated⟩ | ⟨c, -, hsingular⟩
  · cases hlength
  · cases hempty
  · cases hrepeated
  · cases hsingular

end Arithmetic

end Samples

namespace Arithmetic

section Total

theorem IsTotal.exists_powerTable (h : A.IsTotal) (xs : List α) :
    ∃ V, A.powerTable xs = .ok V :=
  (h.simulates.powerTable xs).imp fun _ hV => hV.2

theorem IsTotal.exists_evaluate (h : A.IsTotal) (xs cs : List α) :
    ∃ vs, A.evaluate xs cs = .ok vs :=
  (h.simulates.evaluate xs cs).imp fun _ hvs => hvs.2

variable [BEq α]

theorem IsTotal.exists_interpolate (h : A.IsTotal) (s : SampleSet α) :
    ∃ r, A.interpolate s = .ok r :=
  (h.simulates.interpolate (fun _ _ => rfl) s).imp fun _ hr => hr.2

theorem IsTotal.exists_fit (h : A.IsTotal) (xs ys : List α) : ∃ r, A.fit xs ys = .ok r :=
  (h.simulates.fit (fun _ _ => rfl) xs ys).imp fun _ hr => hr.2

end Total

/-- No input makes a computation with `A` break off. An answer `r` is a result or a refusal. In
the middle of a run the rows have their full width, and the entry that a pivot row is divided by
is not zero; the solver that overwrites its rows in place, with every position checked, has the
same answer. -/
structure AlwaysAnswers [BEq α] (A : Arithmetic (Except Trap) α) : Prop where
  powerTable (xs : List α) : ∃ V, A.powerTable xs = .ok V
  evaluate (xs cs : List α) : ∃ vs, A.evaluate xs cs = .ok vs
  solve (a : SquareMatrix α) (rhs : List α) :
    ∃ r, A.solve a rhs = .ok r ∧ A.solveInPlace a rhs = .ok r
  rows_shape (a : SquareMatrix α) (rhs : List α) (hl : rhs.length = a.dim) (k : ℕ)
    (rows : List (List α)) (hr : A.reduce (augment a.toRows rhs) k = pure rows) :
    HasShape a.dim (a.dim + 1) rows
  divisor_ne_zero (rows : List (List α)) (c p : ℕ) (hp : A.pivotRow? rows c = some p) :
    A.isZero (((exchange rows c p).getD c []).getD c A.zero) = false
  length_solution (a : SquareMatrix α) (rhs c : List α) (hr : A.solve a rhs = pure c) :
    c.length = a.dim
  interpolate (s : SampleSet α) : ∃ r, A.interpolate s = .ok r ∧
    ∀ rows entries, r ≠ .error (.dimensionMismatch rows entries)
  fit (xs ys : List α) : ∃ r, A.fit xs ys = .ok r ∧
    ∀ rows entries, r ≠ .error (.dimensionMismatch rows entries)

theorem IsTotal.alwaysAnswers [BEq α] (h : A.IsTotal) : A.AlwaysAnswers where
  powerTable := h.exists_powerTable
  evaluate := h.exists_evaluate
  solve a rhs := by
    obtain ⟨r, hr⟩ := h.exists_solve a rhs
    refine ⟨r, hr, ?_⟩
    rw [solveInPlace_eq, hr]
    rfl
  rows_shape a rhs hl k rows hr := (hasShape_augment a hl).reduce hr
  divisor_ne_zero rows c p hp := isZero_pivot hp
  length_solution a rhs c hr := length_of_solve hr
  interpolate s := by
    obtain ⟨r, hr⟩ := h.exists_interpolate s
    refine ⟨r, hr, ?_⟩
    rintro rows entries rfl
    exact interpolate_ne_mismatch s rows entries hr
  fit xs ys := by
    obtain ⟨r, hr⟩ := h.exists_fit xs ys
    refine ⟨r, hr, ?_⟩
    rintro rows entries rfl
    exact fit_ne_mismatch xs ys rows entries hr

end Arithmetic

section Coordinates

open Numeral

/-- A text is refused, or it has a literal whose denominator, written or formed, is not zero. -/
theorem Coordinate.read_cases (t : String) :
    (∃ l, literal? t = some l ∧ l.ratio.2 ≠ 0 ∧ read t = .ok l.value) ∨
      read t = .error (.invalidCoordinate t) := by
  cases h : literal? t with
  | none => exact Or.inr (read_of_none h)
  | some l =>
    refine Or.inl ⟨l, rfl, ?_, read_of_some h⟩
    obtain ⟨_, -, hl⟩ := literal?_eq_some_iff.mp h
    cases hl with
    | fraction _ hd => exact hd
    | decimal _ _ => exact Decimal.ratio_snd_ne_zero _

end Coordinates

/-- Over rational numbers and over integers every input is answered, and so is every text that
is to be read as a coordinate. -/
theorem every_input_answered :
    rational.AlwaysAnswers ∧ integer.AlwaysAnswers ∧
      ∀ t, (∃ l, Coordinate.literal? t = some l ∧ l.ratio.2 ≠ 0 ∧
          Coordinate.read t = .ok l.value) ∨
        Coordinate.read t = .error (.invalidCoordinate t) :=
  ⟨Arithmetic.rational_isExact.isTotal.alwaysAnswers,
    Arithmetic.integer_isExact.isTotal.alwaysAnswers, Coordinate.read_cases⟩

end Collocation
