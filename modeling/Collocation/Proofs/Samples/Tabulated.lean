import Collocation.Proofs.Numeral.CoordinateList
import Collocation.Proofs.Samples.RepeatedNodes
import Collocation.Samples.Report

/-!
# How a run on coordinates ends

Three lists of texts are read, the samples among them are supplied, and the set is run. There
are six ways in which this ends, and the texts decide between them: a text that cannot be read,
no nodes, two nodes that denote one number, no values, a different number of nodes and values,
or else the interpolation of the numbers that the texts denote. Solving never fails.
-/

set_option autoImplicit false

namespace Collocation

structure Readings (xs ys ps : List String) (us vs ws : List ℚ) : Prop where
  nodes : List.Forall₂ Coordinate.Names xs us
  values : List.Forall₂ Coordinate.Names ys vs
  queries : List.Forall₂ Coordinate.Names ps ws

variable {xs ys ps : List String} {us vs ws : List ℚ}

theorem SampleSet.ofText_of_unreadable {r : Rejection}
    (h : Coordinate.readAll (xs ++ ys ++ ps) = .error r) : ofText xs ys ps = .error r := by
  rcases Coordinate.readAll_append_eq_error_iff.mp h with h | ⟨_, h, hp⟩
  · rcases Coordinate.readAll_append_eq_error_iff.mp h with hx | ⟨us, hx, hy⟩
    · rw [ofText, hx]
      rfl
    · rw [ofText, hx, hy]
      rfl
  · obtain ⟨us, vs, hx, hy, -⟩ := Coordinate.readAll_append_eq_ok_iff.mp h
    rw [ofText, hx, hy, hp]
    rfl

theorem exists_readings {qs : List ℚ} (h : Coordinate.readAll (xs ++ ys ++ ps) = .ok qs) :
    ∃ us vs ws, Readings xs ys ps us vs ws := by
  obtain ⟨_, ws, hxy, hp, -⟩ := Coordinate.readAll_append_eq_ok_iff.mp h
  obtain ⟨us, vs, hx, hy, -⟩ := Coordinate.readAll_append_eq_ok_iff.mp hxy
  exact ⟨us, vs, ws, Coordinate.readAll_eq_ok_iff.mp hx, Coordinate.readAll_eq_ok_iff.mp hy,
    Coordinate.readAll_eq_ok_iff.mp hp⟩

namespace Readings

theorem ofText_eq (numbers : Readings xs ys ps us vs ws) :
    SampleSet.ofText xs ys ps = (SampleSet.ofSamples us vs).map (·.setQueries ws) := by
  rw [SampleSet.ofText, Coordinate.readAll_eq_ok_iff.mpr numbers.nodes,
    Coordinate.readAll_eq_ok_iff.mpr numbers.values,
    Coordinate.readAll_eq_ok_iff.mpr numbers.queries]
  change (SampleSet.ofSamples us vs >>= fun s => pure (s.setQueries ws)) = _
  cases SampleSet.ofSamples us vs <;> rfl

theorem refused (numbers : Readings xs ys ps us vs ws) {r : Rejection}
    (h : SampleSet.ofSamples us vs = .error r) : interpolateText xs ys ps = throw r := by
  rw [interpolateText, numbers.ofText_eq, h]
  rfl

/-- Samples with distinct nodes are run, and their system is always solved. -/
theorem interpolated (numbers : Readings xs ys ps us vs ws) (hn : us ≠ []) (hd : us.Nodup)
    (hl : vs.length = us.length) :
    interpolateText xs ys ps = pure ⟨us.length, ws.length,
      coefficientsBelow us.length (interpolant us vs), ws.map (interpolant us vs).eval⟩ := by
  have hset := SampleSet.ofSamples_of_matched hn (firstRepetition?_eq_none_iff_nodup.mpr hd) hl
  rw [interpolateText, numbers.ofText_eq, hset]
  change rational.interpolate ⟨us, vs, ws, true⟩ = _
  rw [Arithmetic.rational_isExact.interpolate_of_nodup hn hd hl, solveNodes_rational hd hl,
    pure_bind, polynomialOf_interpolant hd]

end Readings

/-- How a run on three lists of texts has to end. A fault counts only if none of the earlier
ones is there. -/
inductive TextOutcome (xs ys ps : List String) :
    ExceptT Rejection (Except Trap) (Report ℚ) → Prop where
  | unreadable {before after : List String} {s : String}
      (split : xs ++ ys ++ ps = before ++ s :: after)
      (accepted : ∀ t ∈ before, ∃ q, Coordinate.read t = .ok q)
      (refused : ¬ ∃ q, Coordinate.read s = .ok q) :
      TextOutcome xs ys ps (throw (.invalidCoordinate s))
  | noNodes {us vs ws : List ℚ} (numbers : Readings xs ys ps us vs ws) (none : xs = []) :
      TextOutcome xs ys ps (throw .emptyInput)
  | repeatedNode {us vs ws : List ℚ} {i j : ℕ} (numbers : Readings xs ys ps us vs ws)
      (first : IsFirstRepetition us i j) : TextOutcome xs ys ps (throw (.repeatedNode i j))
  | noValues {us vs ws : List ℚ} (numbers : Readings xs ys ps us vs ws) (nodes : xs ≠ [])
      (distinct : us.Nodup) (none : ys = []) : TextOutcome xs ys ps (throw .emptyInput)
  | unequalLength {us vs ws : List ℚ} (numbers : Readings xs ys ps us vs ws) (nodes : xs ≠ [])
      (distinct : us.Nodup) (values : ys ≠ []) (unequal : xs.length ≠ ys.length) :
      TextOutcome xs ys ps (throw (.unequalLength xs.length ys.length))
  | interpolated {us vs ws : List ℚ} {r : Report ℚ} (numbers : Readings xs ys ps us vs ws)
      (nodes : xs ≠ []) (distinct : us.Nodup) (equal : xs.length = ys.length)
      (interpolates : r.Interpolates us vs ws) : TextOutcome xs ys ps (pure r)

theorem ne_nil_iff_of_forall₂ {γ δ : Type} {R : γ → δ → Prop} {l : List γ} {l' : List δ}
    (h : List.Forall₂ R l l') : l ≠ [] ↔ l' ≠ [] := by
  cases h <;> simp

theorem TextOutcome.run_eq {o : ExceptT Rejection (Except Trap) (Report ℚ)}
    (h : TextOutcome xs ys ps o) : interpolateText xs ys ps = o := by
  cases h with
  | unreadable split accepted refused =>
    have hread := Coordinate.readAll_of_first_refused split accepted refused
    rw [interpolateText, SampleSet.ofText_of_unreadable hread]
  | noNodes numbers none =>
    subst none
    cases numbers.nodes
    exact numbers.refused (SampleSet.ofSamples_nil _)
  | repeatedNode numbers first => exact numbers.refused (SampleSet.ofSamples_of_repeated first _)
  | noValues numbers nodes distinct none =>
    subst none
    cases numbers.values
    exact numbers.refused (SampleSet.ofSamples_without_values
      ((ne_nil_iff_of_forall₂ numbers.nodes).mp nodes)
      (firstRepetition?_eq_none_iff_nodup.mpr distinct))
  | unequalLength numbers nodes distinct values unequal =>
    rw [numbers.nodes.length_eq, numbers.values.length_eq] at unequal ⊢
    exact numbers.refused (SampleSet.ofSamples_of_length_ne
      ((ne_nil_iff_of_forall₂ numbers.nodes).mp nodes)
      (firstRepetition?_eq_none_iff_nodup.mpr distinct)
      ((ne_nil_iff_of_forall₂ numbers.values).mp values) (Ne.symm unequal))
  | interpolated numbers nodes distinct equal interpolates =>
    rw [numbers.nodes.length_eq, numbers.values.length_eq] at equal
    rw [interpolates.eq distinct equal.symm]
    exact numbers.interpolated ((ne_nil_iff_of_forall₂ numbers.nodes).mp nodes) distinct
      equal.symm

/-- Every three lists of texts fall under one of the six cases. -/
theorem exists_textOutcome (xs ys ps : List String) : ∃ o, TextOutcome xs ys ps o := by
  cases hread : Coordinate.readAll (xs ++ ys ++ ps) with
  | error r =>
    obtain ⟨before, s, after, split, accepted, refused⟩ := Coordinate.exists_first_refused hread
    exact ⟨_, .unreadable split accepted refused⟩
  | ok qs =>
    obtain ⟨us, vs, ws, numbers⟩ := exists_readings hread
    by_cases nodes : xs = []
    · exact ⟨_, .noNodes numbers nodes⟩
    cases hrep : firstRepetition? us with
    | some p => exact ⟨_, .repeatedNode numbers (isFirstRepetition_of_eq_some hrep)⟩
    | none =>
      have distinct := firstRepetition?_eq_none_iff_nodup.mp hrep
      by_cases values : ys = []
      · exact ⟨_, .noValues numbers nodes distinct values⟩
      by_cases equal : xs.length = ys.length
      · have hl : vs.length = us.length := by
          rw [← numbers.nodes.length_eq, ← numbers.values.length_eq, equal]
        exact ⟨_, .interpolated numbers nodes distinct equal
          (report_interpolates distinct hl ws)⟩
      · exact ⟨_, .unequalLength numbers nodes distinct values equal⟩

/-- A run on texts ends in the one way that the texts ask for. It never traps, and neither a
singular system nor a right-hand side of the wrong size comes out of it. -/
theorem text_outcome_classified (xs ys ps : List String) :
    (∀ o, interpolateText xs ys ps = o ↔ TextOutcome xs ys ps o) ∧
    (∀ k, interpolateText xs ys ps ≠ throw (.singular k)) ∧
    (∀ n k, interpolateText xs ys ps ≠ throw (.dimensionMismatch n k)) ∧
    ∀ t : Trap, interpolateText xs ys ps ≠ Except.error t := by
  obtain ⟨o, ho⟩ := exists_textOutcome xs ys ps
  rw [ho.run_eq]
  constructor
  · intro o'
    constructor
    · intro h
      rwa [← h]
    · intro h
      rw [← ho.run_eq, h.run_eq]
  constructor
  · intro k
    cases ho <;> simp
  constructor
  · intro n k
    cases ho <;> simp
  · intro t h
    cases ho <;> cases h

example : interpolateText ["0.5", "2/4"] ["1"] [] = throw (.repeatedNode 0 1) := by cbv

end Collocation
