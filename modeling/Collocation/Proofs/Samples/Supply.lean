import Collocation.Proofs.Samples.Repetition
import Collocation.Samples.SampleSet

/-!
# Supplying the parts of a sample set

Nodes and values are accepted under conditions on what is supplied and on what is there already,
and an accepted part replaces the old one. Samples that are supplied at once are refused for the
first reason that applies: no nodes, a repetition, no values, lengths that differ. Validation
looks for the same faults in the set as a whole.
-/

set_option autoImplicit false

namespace Collocation

variable {α : Type}

theorem ne_nil_of_length_eq {xs ys : List α} (hn : xs ≠ []) (hl : ys.length = xs.length) :
    ys ≠ [] := by
  rintro rfl
  exact hn (List.eq_nil_of_length_eq_zero hl.symm)

namespace SampleSet

variable {s t : SampleSet α} {xs ys : List α} {p : ℕ × ℕ} {i j : ℕ}

theorem setValues_of_unmatched (hn : s.nodes = []) (hy : ys ≠ []) :
    s.setValues ys = .ok { s with values := ys } := by
  rw [setValues, List.isEmpty_eq_false_iff.mpr hy, hn]
  simp

theorem setValues_of_matched (hn : s.nodes ≠ []) (hl : ys.length = s.nodes.length) :
    s.setValues ys = .ok { s with values := ys } := by
  rw [setValues, List.isEmpty_eq_false_iff.mpr (ne_nil_of_length_eq hn hl), hl]
  simp

theorem setValues_of_length_ne (hn : s.nodes ≠ []) (hy : ys ≠ [])
    (hl : ys.length ≠ s.nodes.length) :
    s.setValues ys = .error (.unequalLength s.nodes.length ys.length) := by
  rw [setValues, List.isEmpty_eq_false_iff.mpr hy]
  simp [hn, hl]

theorem setValues_eq_ok_iff : s.setValues ys = .ok t ↔
    ys ≠ [] ∧ (s.nodes = [] ∨ ys.length = s.nodes.length) ∧ { s with values := ys } = t := by
  by_cases hy : ys = []
  · simp [setValues, hy]
  by_cases hn : s.nodes = []
  · rw [setValues_of_unmatched hn hy]
    simp [hy, hn]
  by_cases hl : ys.length = s.nodes.length
  · rw [setValues_of_matched hn hl]
    simp [hy, hl]
  · rw [setValues_of_length_ne hn hy hl]
    simp [hn, hl]

variable [BEq α]

theorem repetition?_eq_some_iff :
    s.repetition? xs = some (i, j) ↔ s.distinct = true ∧ IsFirstRepetition xs i j := by
  rw [repetition?, ← firstRepetition?_eq_some_iff]
  cases s.distinct <;> simp

theorem repetition?_eq_none_iff :
    s.repetition? xs = none ↔ ¬ (s.distinct = true ∧ ∃ i j, Repeats xs i j) := by
  have hrep : firstRepetition? xs = none ↔ ∀ i j, ¬ Repeats xs i j :=
    firstRepetition?_eq_none_iff
  rw [repetition?]
  cases s.distinct with
  | false => simp
  | true => simp [hrep]

theorem setNodes_of_repeated (hn : xs ≠ []) (hr : s.repetition? xs = some p) :
    s.setNodes xs = .error (.repeatedNode p.1 p.2) := by
  rw [setNodes, List.isEmpty_eq_false_iff.mpr hn, hr]
  rfl

theorem setNodes_of_unmatched (hn : xs ≠ []) (hv : s.values = [])
    (hr : s.repetition? xs = none) : s.setNodes xs = .ok { s with nodes := xs } := by
  rw [setNodes, List.isEmpty_eq_false_iff.mpr hn, hr, hv]
  simp

theorem setNodes_of_matched (hn : xs ≠ []) (hr : s.repetition? xs = none)
    (hl : s.values.length = xs.length) : s.setNodes xs = .ok { s with nodes := xs } := by
  rw [setNodes, List.isEmpty_eq_false_iff.mpr hn, hr, hl]
  simp

theorem setNodes_of_length_ne (hn : xs ≠ []) (hr : s.repetition? xs = none)
    (hv : s.values ≠ []) (hl : s.values.length ≠ xs.length) :
    s.setNodes xs = .error (.unequalLength xs.length s.values.length) := by
  rw [setNodes, List.isEmpty_eq_false_iff.mpr hn, hr]
  simp [hv, hl]

theorem setNodes_eq_ok_iff : s.setNodes xs = .ok t ↔
    xs ≠ [] ∧ s.repetition? xs = none ∧
      (s.values = [] ∨ s.values.length = xs.length) ∧ { s with nodes := xs } = t := by
  by_cases hn : xs = []
  · simp [setNodes, hn]
  cases hr : s.repetition? xs with
  | some p => simp [setNodes_of_repeated hn hr]
  | none =>
    by_cases hv : s.values = []
    · rw [setNodes_of_unmatched hn hv hr]
      simp [hn, hv]
    by_cases hl : s.values.length = xs.length
    · rw [setNodes_of_matched hn hr hl]
      simp [hn, hl]
    · rw [setNodes_of_length_ne hn hr hv hl]
      simp [hv, hl]

theorem setNodes_bind_setValues (hn : xs ≠ []) (hv : s.values = [])
    (hr : s.repetition? xs = none) (hl : ys.length = xs.length) :
    s.setNodes xs >>= (·.setValues ys) = .ok { s with nodes := xs, values := ys } := by
  rw [setNodes_of_unmatched hn hv hr]
  exact setValues_of_matched (s := { s with nodes := xs }) hn hl

section Samples

/-! Samples supplied at once, one lemma for each way in which this ends. -/

theorem ofSamples_nil (ys : List α) : ofSamples [] ys = .error .emptyInput := rfl

theorem ofSamples_of_repeated (h : IsFirstRepetition xs i j) (ys : List α) :
    ofSamples xs ys = .error (.repeatedNode i j) := by
  have hn : xs ≠ [] := List.ne_nil_of_length_pos (Nat.zero_lt_of_lt h.repeats.2.1)
  have hr : (empty : SampleSet α).repetition? xs = some (i, j) :=
    repetition?_eq_some_iff.mpr ⟨rfl, h⟩
  rw [ofSamples, setNodes_of_repeated hn hr]
  rfl

theorem ofSamples_of_distinct (hn : xs ≠ []) (hr : firstRepetition? xs = none) (ys : List α) :
    ofSamples xs ys = (⟨xs, [], [], true⟩ : SampleSet α).setValues ys := by
  rw [ofSamples, setNodes_of_unmatched (s := empty) hn rfl hr]
  rfl

theorem ofSamples_without_values (hn : xs ≠ []) (hr : firstRepetition? xs = none) :
    ofSamples xs [] = .error .emptyInput :=
  ofSamples_of_distinct hn hr []

theorem ofSamples_of_length_ne (hn : xs ≠ []) (hr : firstRepetition? xs = none) (hy : ys ≠ [])
    (hl : ys.length ≠ xs.length) :
    ofSamples xs ys = .error (.unequalLength xs.length ys.length) := by
  rw [ofSamples_of_distinct hn hr]
  exact setValues_of_length_ne hn hy hl

theorem ofSamples_of_matched (hn : xs ≠ []) (hr : firstRepetition? xs = none)
    (hl : ys.length = xs.length) : ofSamples xs ys = .ok ⟨xs, ys, [], true⟩ :=
  setNodes_bind_setValues hn rfl hr hl

end Samples

theorem validate_of_incomplete (h : s.nodes = [] ∨ s.values = []) :
    s.validate = .error .emptyInput := by
  rw [validate, if_pos]
  cases h with
  | inl hn => simp [hn]
  | inr hv => simp [hv]

theorem validate_of_matched (hn : s.nodes ≠ []) (hl : s.values.length = s.nodes.length) :
    s.validate =
      (s.repetition? s.nodes).elim (.ok ()) fun p => .error (.repeatedNode p.1 p.2) := by
  have hempty : (s.nodes.isEmpty || s.values.isEmpty) = false := by
    rw [List.isEmpty_eq_false_iff.mpr hn,
      List.isEmpty_eq_false_iff.mpr (ne_nil_of_length_eq hn hl)]
    rfl
  rw [validate, hempty, hl]
  simp only [Bool.false_eq_true, if_false, ne_eq, not_true_eq_false]
  cases s.repetition? s.nodes with
  | none => rfl
  | some p => rfl

end SampleSet

end Collocation
