import Collocation.Dense.Polynomial
import Collocation.Proofs.Linear.Simulation

/-!
# Runs and fits in two arithmetics

Running a sample set and fitting a polynomial compare nodes before they compute with them. If
nodes are equal in one arithmetic exactly if their images are, both are refused for the same
reason, and otherwise report and polynomial are images.
-/

set_option autoImplicit false

namespace Collocation

variable {α β : Type}

section Maps

variable (f : β → α)

def SampleSet.map (s : SampleSet β) : SampleSet α :=
  ⟨s.nodes.map f, s.values.map f, s.queries.map f, s.distinct⟩

def Report.map (r : Report β) : Report α :=
  ⟨r.samples, r.queries, r.coefficients.map f, r.values.map f⟩

def DensePoly.map (p : DensePoly β) : DensePoly α := ⟨p.coefficients.map f⟩

variable {f} [BEq α] [BEq β] (hf : ∀ a b, (f a == f b) = (a == b))

include hf

theorem firstRepetition?_map (xs : List β) :
    firstRepetition? (xs.map f) = firstRepetition? xs := by
  induction xs with
  | nil => rfl
  | cons x xs ih =>
    rw [List.map_cons, firstRepetition?, firstRepetition?, ih, List.findIdx?_map]
    simp only [Function.comp_def, hf]

theorem SampleSet.validate_map (s : SampleSet β) : (s.map f).validate = s.validate := by
  rw [validate, validate, repetition?, repetition?]
  simp only [map, List.isEmpty_map, List.length_map, firstRepetition?_map hf]

end Maps

namespace Simulates

variable {m n : Type → Type} [Monad m] [Monad n] [LawfulMonad m] [LawfulMonad n]
  [BEq α] [BEq β] {R : EffectRelation m n} {f : β → α} {A : Arithmetic m α} {B : Arithmetic n β}

theorem interpolate (h : Simulates R f A B) (hf : ∀ a b, (f a == f b) = (a == b))
    (s : SampleSet β) :
    R.withRejections.Image (Report.map f) (A.interpolate (s.map f)) (B.interpolate s) := by
  rw [Arithmetic.interpolate, Arithmetic.interpolate, SampleSet.validate_map hf]
  cases s.validate with
  | error e => exact R.throw _ e
  | ok u =>
    apply R.withRejections.bind (EffectRelation.liftM (h.powerTable s.nodes))
    intro table
    apply R.withRejections.bind (h.solve table s.values)
    intro coefficients
    apply R.withRejections.bind (EffectRelation.liftM (h.evaluate s.queries coefficients))
    intro values
    simp only [Report.blank, SampleSet.map, List.length_map]
    exact R.withRejections.pure (Report.map f)
      ⟨s.nodes.length, s.queries.length, coefficients, values⟩

theorem distinctPowerTable (h : Simulates R f A B) (hf : ∀ a b, (f a == f b) = (a == b))
    (xs : List β) :
    R.withRejections.Image (SquareMatrix.map f) (A.distinctPowerTable (xs.map f))
      (B.distinctPowerTable xs) := by
  rw [Arithmetic.distinctPowerTable, Arithmetic.distinctPowerTable, List.isEmpty_map,
    firstRepetition?_map hf]
  cases xs.isEmpty with
  | true => exact R.throw _ _
  | false =>
    cases firstRepetition? xs with
    | some p => exact R.throw _ _
    | none => exact EffectRelation.liftM (h.powerTable xs)

theorem fit (h : Simulates R f A B) (hf : ∀ a b, (f a == f b) = (a == b)) (xs ys : List β) :
    R.withRejections.Image (DensePoly.map f) (A.fit (xs.map f) (ys.map f)) (B.fit xs ys) := by
  rw [Arithmetic.fit, Arithmetic.fit, List.length_map, List.length_map]
  by_cases hl : xs.length = ys.length
  · rw [if_pos hl, if_pos hl]
    apply R.withRejections.bind (h.distinctPowerTable hf xs)
    intro table
    apply R.withRejections.bind (h.solve table ys)
    intro coefficients
    exact R.withRejections.pure (DensePoly.map f) ⟨coefficients⟩
  · rw [if_neg hl, if_neg hl]
    exact R.throw _ _

end Simulates

end Collocation
