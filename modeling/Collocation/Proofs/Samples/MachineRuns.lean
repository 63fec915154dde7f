import Collocation.Proofs.Arithmetic.Overflow
import Collocation.Proofs.Samples.Simulation

/-!
# Runs with 64-bit integers

Power tables, evaluation, solving, runs of sample sets and fits with 64-bit integers are compared
with the same computations on unbounded integers. The steps of the exact run, in the order in
which it performs them, tell what becomes of the run with 64-bit integers.
-/

set_option autoImplicit false

namespace Collocation

section Identity

variable {α : Type}

@[simp] theorem SampleSet.map_id (s : SampleSet α) : s.map id = s := by
  simp [SampleSet.map]

theorem Report.map_id : Report.map (id : α → α) = id := by
  funext r
  simp [Report.map]

theorem DensePoly.map_id : DensePoly.map (id : α → α) = id := by
  funext p
  simp [DensePoly.map]

end Identity

namespace Arithmetic

variable {α : Type} (A : Arithmetic (Except Trap) α)

/-! Each computation has the same outcome with its record as without. -/

theorem outcome_powerTable (xs : List α) : (A.recorded.powerTable xs).outcome = A.powerTable xs := by
  have h := Recorded.outcome_eq_of_forget (funext SquareMatrix.map_id)
    (A.simulates_recorded.powerTable xs)
  rwa [List.map_id] at h

theorem outcome_evaluate (xs cs : List α) :
    (A.recorded.evaluate xs cs).outcome = A.evaluate xs cs := by
  have h := Recorded.outcome_eq_of_forget List.map_id_fun (A.simulates_recorded.evaluate xs cs)
  rwa [List.map_id, List.map_id] at h

theorem outcome_solve (a : SquareMatrix α) (rhs : List α) :
    (A.recorded.solve a rhs).run.outcome = A.solve a rhs := by
  have h := Recorded.outcome_eq_of_forget_rejections List.map_id_fun
    (A.simulates_recorded.solve a rhs)
  rwa [SquareMatrix.map_id, List.map_id] at h

variable [BEq α]

theorem outcome_interpolate (s : SampleSet α) :
    (A.recorded.interpolate s).run.outcome = A.interpolate s := by
  have h := Recorded.outcome_eq_of_forget_rejections Report.map_id
    (A.simulates_recorded.interpolate (fun _ _ => rfl) s)
  rwa [SampleSet.map_id] at h

theorem outcome_fit (xs ys : List α) : (A.recorded.fit xs ys).run.outcome = A.fit xs ys := by
  have h := Recorded.outcome_eq_of_forget_rejections DensePoly.map_id
    (A.simulates_recorded.fit (fun _ _ => rfl) xs ys)
  rwa [List.map_id, List.map_id] at h

end Arithmetic

/-- What a run with 64-bit integers has to do with the run on unbounded integers, of which
`record` keeps the steps. Results are compared along `g`. -/
structure RefinesExact {γ δ : Type} (g : δ → γ) (record : Recorded ℤ γ) (exact : Except Trap γ)
    (machine : Except Trap δ) : Prop where
  record_outcome : record.outcome = exact
  same_result (d : δ) (h : machine = .ok d) : exact = .ok (g d)
  traps_iff : (∃ t, machine = .error t) ↔ ∃ s ∈ record.steps, ¬ InRange s.result
  names_first (t : Trap) (h : machine = .error t) :
    ∃ before s after, record.steps = before ++ s :: after ∧
      (∀ r ∈ before, InRange r.result) ∧ ¬ InRange s.result ∧ t = .overflow s.op
  never_zero : machine ≠ .error .divisionByZero

theorem Recorded.Decides.refinesExact {γ δ : Type} {g : δ → γ} {record : Recorded ℤ γ}
    {exact : Except Trap γ} {machine : Except Trap δ} (h : record.Decides g machine)
    (hexact : record.outcome = exact) : RefinesExact g record exact machine := by
  cases hfirst : firstOverflow? record.steps with
  | none =>
    have hall := firstOverflow?_eq_none_iff.mp hfirst
    obtain ⟨d, rfl, hd⟩ := (Recorded.decides_of_none hfirst).mp h
    refine ⟨hexact, ?_, ?_, ?_, ?_⟩
    · intro d' hd'
      rw [← hexact, hd, Except.ok.inj hd']
    · constructor
      · rintro ⟨t, ht⟩
        cases ht
      · rintro ⟨s, hs, hout⟩
        exact absurd (hall s hs) hout
    · intro t ht
      cases ht
    · intro ht
      cases ht
  | some s =>
    obtain ⟨before, after, hsteps, hbefore, hout⟩ := firstOverflow?_eq_some hfirst
    obtain rfl := (Recorded.decides_of_some hfirst).mp h
    refine ⟨hexact, ?_, ?_, ?_, ?_⟩
    · intro d hd
      cases hd
    · constructor
      · intro _
        exact ⟨s, by rw [hsteps]; simp, hout⟩
      · intro _
        exact ⟨_, rfl⟩
    · intro t ht
      cases ht
      exact ⟨before, s, after, hsteps, hbefore, hout, rfl⟩
    · intro ht
      cases ht

theorem toInt_beq (a b : Int64) : (a.toInt == b.toInt) = (a == b) := by
  rw [Bool.eq_iff_iff, beq_iff_eq, beq_iff_eq, Int64.toInt_inj]

/-- Every computation with 64-bit integers has the outcome of the exact one, rejections
included, unless some step of the exact one leaves the range. Then it traps, and the trap names
the operation of the first such step. -/
theorem int64_refines_integer :
    (∀ xs : List Int64,
      RefinesExact (SquareMatrix.map Int64.toInt)
        (integer.recorded.powerTable (xs.map Int64.toInt))
        (integer.powerTable (xs.map Int64.toInt)) (int64.powerTable xs)) ∧
    (∀ xs cs : List Int64,
      RefinesExact (List.map Int64.toInt)
        (integer.recorded.evaluate (xs.map Int64.toInt) (cs.map Int64.toInt))
        (integer.evaluate (xs.map Int64.toInt) (cs.map Int64.toInt)) (int64.evaluate xs cs)) ∧
    (∀ (a : SquareMatrix Int64) (rhs : List Int64),
      RefinesExact (Except.map (List.map Int64.toInt))
        (integer.recorded.solve (a.map Int64.toInt) (rhs.map Int64.toInt)).run
        (integer.solve (a.map Int64.toInt) (rhs.map Int64.toInt)).run (int64.solve a rhs).run) ∧
    (∀ s : SampleSet Int64,
      RefinesExact (Except.map (Report.map Int64.toInt))
        (integer.recorded.interpolate (s.map Int64.toInt)).run
        (integer.interpolate (s.map Int64.toInt)).run (int64.interpolate s).run) ∧
    ∀ xs ys : List Int64,
      RefinesExact (Except.map (DensePoly.map Int64.toInt))
        (integer.recorded.fit (xs.map Int64.toInt) (ys.map Int64.toInt)).run
        (integer.fit (xs.map Int64.toInt) (ys.map Int64.toInt)).run (int64.fit xs ys).run := by
  have h := simulates_int64
  refine ⟨?_, ?_, ?_, ?_, ?_⟩
  · intro xs
    exact Recorded.Decides.refinesExact (h.powerTable xs) (integer.outcome_powerTable _)
  · intro xs cs
    exact Recorded.Decides.refinesExact (h.evaluate xs cs) (integer.outcome_evaluate _ _)
  · intro a rhs
    exact Recorded.Decides.refinesExact (h.solve a rhs) (integer.outcome_solve _ _)
  · intro s
    exact Recorded.Decides.refinesExact (h.interpolate toInt_beq s) (integer.outcome_interpolate _)
  · intro xs ys
    exact Recorded.Decides.refinesExact (h.fit toInt_beq xs ys) (integer.outcome_fit _ _)

/-! A division overflows as well: the smallest integer over minus one. -/

example : int64.solve ⟨1, [-1], rfl⟩ [Int64.minValue] = .error (.overflow .divide) := rfl

example : integer.solve ⟨1, [-1], rfl⟩ [-2 ^ 63] = .ok (.ok [2 ^ 63]) := rfl

end Collocation
