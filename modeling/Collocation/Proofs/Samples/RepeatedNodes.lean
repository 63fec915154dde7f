import Collocation.Proofs.Samples.Interpolation

/-!
# Repeated nodes with and without the switch

Whether the system of a sample set can be solved depends on its nodes alone. A set that asks
for distinct nodes refuses exactly the nodes that the solver would find singular; the solver
then names the column that counts the different nodes. In all other cases the switch makes no
difference.
-/

set_option autoImplicit false

namespace Collocation

variable {α : Type} [DecidableEq α] {A : Arithmetic (Except Trap) α} {xs ys : List α}

/-- What the repetitions among the nodes `xs` decide about a run with the values `ys`. The
field `supplied` says that the sets compared here can be made, with the switch set last. -/
structure DecidedByRepetition (A : Arithmetic (Except Trap) α) (xs ys qs : List α) : Prop where
  solved (h : xs.toFinset.card = xs.length) : ∃ c, A.solveNodes xs ys = pure c
  singular (h : xs.toFinset.card ≠ xs.length) :
    A.solveNodes xs ys = throw (.singular xs.toFinset.card)
  supplied (hn : xs ≠ []) (b : Bool) : (do
      let s ← (SampleSet.empty.setDistinct false).setNodes xs
      let s ← s.setValues ys
      return (s.setQueries qs).setDistinct b) = Except.ok ⟨xs, ys, qs, b⟩
  same_report (hn : xs ≠ []) (r : Report α) :
    A.interpolate ⟨xs, ys, qs, false⟩ = pure r ↔ A.interpolate ⟨xs, ys, qs, true⟩ = pure r
  refused (hn : xs ≠ []) (h : xs.toFinset.card ≠ xs.length) :
    ∃ i j, IsFirstRepetition xs i j ∧
      A.interpolate ⟨xs, ys, qs, true⟩ = throw (.repeatedNode i j) ∧
      A.interpolate ⟨xs, ys, qs, false⟩ = throw (.singular xs.toFinset.card)

theorem card_toFinset_eq_length_iff (xs : List α) :
    xs.toFinset.card = xs.length ↔ xs.Nodup :=
  Multiset.toFinset_card_eq_card_iff_nodup

theorem supplied_without_switch (hn : xs ≠ []) (hl : ys.length = xs.length)
    (qs : List α) (b : Bool) : (do
      let s ← (SampleSet.empty.setDistinct false).setNodes xs
      let s ← s.setValues ys
      return (s.setQueries qs).setDistinct b) = Except.ok ⟨xs, ys, qs, b⟩ := by
  rw [← bind_assoc, SampleSet.setNodes_bind_setValues hn rfl rfl hl]
  rfl

namespace Arithmetic

theorem interpolate_checked {i j : ℕ} (hn : xs ≠ []) (hfirst : IsFirstRepetition xs i j)
    (hl : ys.length = xs.length) (qs : List α) :
    A.interpolate ⟨xs, ys, qs, true⟩ = throw (.repeatedNode i j) := by
  have hrep : SampleSet.repetition? ⟨xs, ys, qs, true⟩ xs = some (i, j) :=
    firstRepetition?_eq_some_iff.mpr hfirst
  apply interpolate_of_invalid
  rw [SampleSet.validate_of_matched hn hl, hrep]
  rfl

variable [CommRing α] {quot : α → α → α}

theorem IsExact.interpolate_of_nodup (h : A.IsExact quot) (hn : xs ≠ []) (hd : xs.Nodup)
    (hl : ys.length = xs.length) (qs : List α) (b : Bool) :
    A.interpolate ⟨xs, ys, qs, b⟩ = do
      let c ← A.solveNodes xs ys
      return ⟨xs.length, qs.length, c, qs.map fun x => (polynomialOf c).eval x⟩ := by
  have hrep : SampleSet.repetition? ⟨xs, ys, qs, b⟩ xs = none := by
    rw [SampleSet.repetition?, firstRepetition?_eq_none_iff_nodup.mpr hd, ite_self]
  have hvalid : SampleSet.validate ⟨xs, ys, qs, b⟩ = .ok () := by
    rw [SampleSet.validate_of_matched hn hl, hrep]
    rfl
  exact h.interpolate_of_validate hvalid

variable [IsDomain α]

theorem IsExact.interpolate_unchecked (h : A.IsExact quot) (hn : xs ≠ []) (hd : ¬ xs.Nodup)
    (hl : ys.length = xs.length) (qs : List α) :
    A.interpolate ⟨xs, ys, qs, false⟩ = throw (.singular xs.toFinset.card) := by
  have hvalid : SampleSet.validate ⟨xs, ys, qs, false⟩ = .ok () := by
    rw [SampleSet.validate_of_matched hn hl]
    rfl
  rw [h.interpolate_of_validate hvalid, h.solveNodes_of_not_nodup hd hl, throw_bind]

theorem IsExact.interpolate_refused (h : A.IsExact quot) (hn : xs ≠ []) (hd : ¬ xs.Nodup)
    (hl : ys.length = xs.length) (qs : List α) :
    ∃ i j, IsFirstRepetition xs i j ∧
      A.interpolate ⟨xs, ys, qs, true⟩ = throw (.repeatedNode i j) ∧
      A.interpolate ⟨xs, ys, qs, false⟩ = throw (.singular xs.toFinset.card) := by
  cases hp : firstRepetition? xs with
  | none => exact absurd (firstRepetition?_eq_none_iff_nodup.mp hp) hd
  | some p =>
    have hfirst := isFirstRepetition_of_eq_some hp
    exact ⟨p.1, p.2, hfirst, interpolate_checked hn hfirst hl qs,
      h.interpolate_unchecked hn hd hl qs⟩

theorem IsExact.decidedByRepetition (h : A.IsExact quot) (hl : ys.length = xs.length)
    (qs : List α) : DecidedByRepetition A xs ys qs := by
  refine ⟨?_, ?_, fun hn b => supplied_without_switch hn hl qs b, ?_, ?_⟩
  · intro hcard
    exact ⟨_, h.solveNodes_of_nodup ((card_toFinset_eq_length_iff xs).mp hcard) hl⟩
  · intro hcard
    exact h.solveNodes_of_not_nodup ((card_toFinset_eq_length_iff xs).not.mp hcard) hl
  · intro hn r
    by_cases hd : xs.Nodup
    · rw [h.interpolate_of_nodup hn hd hl, h.interpolate_of_nodup hn hd hl]
    · obtain ⟨i, j, -, hchecked, hunchecked⟩ := h.interpolate_refused hn hd hl qs
      rw [hchecked, hunchecked]
      constructor
      · intro hrun
        exact absurd hrun (throw_ne_pure _ _)
      · intro hrun
        exact absurd hrun (throw_ne_pure _ _)
  · intro hn hcard
    exact h.interpolate_refused hn ((card_toFinset_eq_length_iff xs).not.mp hcard) hl qs

end Arithmetic

/-- For rational numbers and for truncating integers alike, the nodes alone decide. -/
theorem nodes_decide_solvability :
    (∀ xs ys qs : List ℚ, ys.length = xs.length → DecidedByRepetition rational xs ys qs) ∧
    ∀ xs ys qs : List ℤ, ys.length = xs.length → DecidedByRepetition integer xs ys qs := by
  constructor
  · intro xs ys qs hl
    exact Arithmetic.rational_isExact.decidedByRepetition hl qs
  · intro xs ys qs hl
    exact Arithmetic.integer_isExact.decidedByRepetition hl qs

/-- Two different nodes are repeated and one is not, so column three has no pivot. -/
theorem nodes_decide_three_of_five :
    ([7, -1, 0, 3, 3] : List ℤ).length = ([1, 4, 1, 4, 2] : List ℤ).length ∧
      DecidedByRepetition integer [1, 4, 1, 4, 2] [7, -1, 0, 3, 3] [9] ∧
      integer.solveNodes [1, 4, 1, 4, 2] [7, -1, 0, 3, 3] = throw (.singular 3) :=
  ⟨rfl, nodes_decide_solvability.2 _ _ [9] rfl,
    (nodes_decide_solvability.2 [1, 4, 1, 4, 2] [7, -1, 0, 3, 3] [9] rfl).singular (by decide)⟩

end Collocation
