import Collocation.Arithmetic.Machine
import Collocation.Linear.PowerTable
import Mathlib.Data.List.Nodup
import Mathlib.Data.Prod.Lex

/-!
# The first repeated pair

A repetition is a pair of positions with equal entries. The search finds the pair that comes
first, by its first position and then by its second, whatever the equality of the entries is.
If that equality is genuine there is no repetition exactly in a list without duplicates. What the
search finds decides whether nodes have a checked power table.
-/

set_option autoImplicit false

namespace Collocation

section Repetitions

variable {α : Type} [BEq α] {x : α} {xs : List α} {i j : ℕ}

def Repeats (xs : List α) (i j : ℕ) : Prop :=
  i < j ∧ ∃ (hi : i < xs.length) (hj : j < xs.length), (xs[i] == xs[j]) = true

structure IsFirstRepetition (xs : List α) (i j : ℕ) : Prop where
  repeats : Repeats xs i j
  first (i' j' : ℕ) (h : Repeats xs i' j') : i < i' ∨ i = i' ∧ j ≤ j'

theorem repeats_cons_zero : Repeats (x :: xs) 0 (j + 1) ↔
    ∃ hj : j < xs.length, (x == xs[j]) = true := by
  constructor
  · rintro ⟨-, _, hj, heq⟩
    exact ⟨Nat.lt_of_succ_lt_succ hj, heq⟩
  · rintro ⟨hj, heq⟩
    exact ⟨Nat.succ_pos j, Nat.succ_pos _, Nat.succ_lt_succ hj, heq⟩

theorem repeats_cons_succ : Repeats (x :: xs) (i + 1) (j + 1) ↔ Repeats xs i j := by
  constructor
  · rintro ⟨hij, hi, hj, heq⟩
    exact ⟨Nat.lt_of_succ_lt_succ hij, Nat.lt_of_succ_lt_succ hi, Nat.lt_of_succ_lt_succ hj, heq⟩
  · rintro ⟨hij, hi, hj, heq⟩
    exact ⟨Nat.succ_lt_succ hij, Nat.succ_lt_succ hi, Nat.succ_lt_succ hj, heq⟩

theorem Repeats.of_cons (h : Repeats (x :: xs) i j) :
    (i = 0 ∧ ∃ k, j = k + 1 ∧ ∃ hk : k < xs.length, (x == xs[k]) = true) ∨
      ∃ i' k, i = i' + 1 ∧ j = k + 1 ∧ Repeats xs i' k := by
  obtain ⟨k, rfl⟩ := Nat.exists_eq_succ_of_ne_zero (Nat.ne_zero_of_lt h.1)
  cases i with
  | zero => exact Or.inl ⟨rfl, k, rfl, repeats_cons_zero.mp h⟩
  | succ i => exact Or.inr ⟨i, k, rfl, rfl, repeats_cons_succ.mp h⟩

theorem not_beq_of_findIdx?_eq_none (h : xs.findIdx? (x == ·) = none) (hj : j < xs.length) :
    (x == xs[j]) ≠ true := by
  rw [List.findIdx?_eq_none_iff.mp h _ (List.getElem_mem hj)]
  exact Bool.false_ne_true

theorem IsFirstRepetition.unique {i' j' : ℕ} (h : IsFirstRepetition xs i j)
    (h' : IsFirstRepetition xs i' j') : i = i' ∧ j = j' := by
  have hle := h.first _ _ h'.repeats
  have hge := h'.first _ _ h.repeats
  omega

theorem isFirstRepetition_of_eq_some {p : ℕ × ℕ} (h : firstRepetition? xs = some p) :
    IsFirstRepetition xs p.1 p.2 := by
  induction xs generalizing p with
  | nil => simp [firstRepetition?] at h
  | cons x xs ih =>
    rw [firstRepetition?] at h
    cases hx : xs.findIdx? (x == ·) with
    | some k =>
      obtain ⟨hk, heq, hbefore⟩ := List.findIdx?_eq_some_iff_getElem.mp hx
      simp only [hx, Option.some.injEq] at h
      subst h
      refine ⟨repeats_cons_zero.mpr ⟨hk, heq⟩, ?_⟩
      intro i' j' hrep
      rcases hrep.of_cons with ⟨rfl, k', rfl, hk', heq'⟩ | ⟨i'', k', rfl, rfl, -⟩
      · refine Or.inr ⟨rfl, ?_⟩
        by_contra hlt
        exact hbefore k' (by omega) heq'
      · exact Or.inl (Nat.succ_pos i'')
    | none =>
      simp only [hx, Option.map_eq_some_iff] at h
      obtain ⟨q, hq, rfl⟩ := h
      have hfirst := ih hq
      refine ⟨repeats_cons_succ.mpr hfirst.repeats, ?_⟩
      intro i' j' hrep
      rcases hrep.of_cons with ⟨rfl, k', rfl, hk', heq'⟩ | ⟨i'', k', rfl, rfl, htail⟩
      · exact absurd heq' (not_beq_of_findIdx?_eq_none hx hk')
      · have hle := hfirst.first i'' k' htail
        omega

theorem firstRepetition?_eq_none_iff :
    firstRepetition? xs = none ↔ ∀ i j, ¬ Repeats xs i j := by
  constructor
  · induction xs with
    | nil =>
      rintro - i j ⟨-, hi, -⟩
      exact Nat.not_lt_zero i hi
    | cons x xs ih =>
      intro h
      rw [firstRepetition?] at h
      cases hx : xs.findIdx? (x == ·) with
      | some k => simp [hx] at h
      | none =>
        simp only [hx, Option.map_eq_none_iff] at h
        intro i j hrep
        rcases hrep.of_cons with ⟨rfl, k, rfl, hk, heq⟩ | ⟨i', k, rfl, rfl, htail⟩
        · exact not_beq_of_findIdx?_eq_none hx hk heq
        · exact ih h i' k htail
  · intro h
    cases hp : firstRepetition? xs with
    | none => rfl
    | some p => exact absurd (isFirstRepetition_of_eq_some hp).repeats (h p.1 p.2)

theorem firstRepetition?_eq_some_iff :
    firstRepetition? xs = some (i, j) ↔ IsFirstRepetition xs i j := by
  constructor
  · intro h
    exact isFirstRepetition_of_eq_some h
  · intro h
    cases hp : firstRepetition? xs with
    | none => exact absurd h.repeats (firstRepetition?_eq_none_iff.mp hp i j)
    | some p =>
      obtain ⟨hi, hj⟩ := (isFirstRepetition_of_eq_some hp).unique h
      rw [← hi, ← hj]

theorem firstRepetition?_eq_none_iff_nodup [LawfulBEq α] :
    firstRepetition? xs = none ↔ xs.Nodup := by
  rw [firstRepetition?_eq_none_iff, List.Nodup, List.pairwise_iff_getElem]
  constructor
  · intro h i j hi hj hij heq
    exact h i j ⟨hij, hi, hj, beq_iff_eq.mpr heq⟩
  · rintro h i j ⟨hij, hi, hj, heq⟩
    exact h i j hi hj hij (beq_iff_eq.mp heq)

end Repetitions

section DistinctTable

/-! The checked table is refused for the first repeated pair of nodes. No other pair of equal nodes
comes before it in the lexicographic order of pairs, whatever the equality of the number type is:
a node need not even be equal to itself. Nodes without a repetition have their plain power
table. -/

variable {m : Type → Type} {α : Type} [Monad m] [BEq α] {A : Arithmetic m α} {xs : List α}
  {i j : ℕ}

theorem isFirstRepetition_iff_toLex : IsFirstRepetition xs i j ↔
    Repeats xs i j ∧ ∀ i' j', toLex (i', j') < toLex (i, j) → ¬ Repeats xs i' j' := by
  constructor
  · rintro ⟨hrep, hfirst⟩
    refine ⟨hrep, ?_⟩
    intro i' j' hlt hrep'
    have hle := hfirst i' j' hrep'
    rw [Prod.Lex.toLex_lt_toLex] at hlt
    dsimp only at hlt
    omega
  · rintro ⟨hrep, hnone⟩
    refine ⟨hrep, ?_⟩
    intro i' j' hrep'
    by_contra hnot
    refine hnone i' j' ?_ hrep'
    rw [Prod.Lex.toLex_lt_toLex]
    dsimp only
    omega

namespace Arithmetic

theorem distinctPowerTable_nil : A.distinctPowerTable [] = throw .emptyInput := rfl

theorem distinctPowerTable_of_repeated (h : IsFirstRepetition xs i j) :
    A.distinctPowerTable xs = throw (.repeatedNode i j) := by
  have hn : xs ≠ [] := List.ne_nil_of_length_pos (Nat.zero_lt_of_lt h.repeats.2.1)
  rw [distinctPowerTable, List.isEmpty_eq_false_iff.mpr hn, firstRepetition?_eq_some_iff.mpr h]
  rfl

theorem distinctPowerTable_of_distinct (hn : xs ≠ []) (hr : firstRepetition? xs = none) :
    A.distinctPowerTable xs = A.powerTable xs := by
  rw [distinctPowerTable, List.isEmpty_eq_false_iff.mpr hn, hr]
  rfl

end Arithmetic

/-- The search finds the repeated pair that comes first, and nothing exactly if no pair repeats.
What it finds decides about the checked table. -/
theorem firstRepetition_decides_table (A : Arithmetic m α) (xs : List α) :
    (∀ i j, firstRepetition? xs = some (i, j) ↔
      (i < j ∧ ∃ (hi : i < xs.length) (hj : j < xs.length), (xs[i] == xs[j]) = true) ∧
        ∀ i' j', toLex (i', j') < toLex (i, j) → ¬ Repeats xs i' j') ∧
    (firstRepetition? xs = none ↔ ∀ i j, ¬ Repeats xs i j) ∧
    (xs = [] → A.distinctPowerTable xs = throw .emptyInput) ∧
    (∀ i j, firstRepetition? xs = some (i, j) →
      A.distinctPowerTable xs = throw (.repeatedNode i j)) ∧
    (xs ≠ [] → (∀ i j, ¬ Repeats xs i j) → A.distinctPowerTable xs = liftM (A.powerTable xs)) := by
  refine ⟨?_, firstRepetition?_eq_none_iff, ?_, ?_, ?_⟩
  · intro i j
    rw [firstRepetition?_eq_some_iff, isFirstRepetition_iff_toLex]
    rfl
  · rintro rfl
    exact Arithmetic.distinctPowerTable_nil
  · intro i j h
    exact Arithmetic.distinctPowerTable_of_repeated (firstRepetition?_eq_some_iff.mp h)
  · intro hn h
    exact Arithmetic.distinctPowerTable_of_distinct hn (firstRepetition?_eq_none_iff.mpr h)

/-- Undefined numbers repeat nothing. The pair at `1` and `5` comes before the pair of zeros at `2`
and `4`, although that one is complete earlier. -/
theorem firstRepetition_decides_table_doubles :
    (Repeats ([0 / 0, 2, -0, 0 / 0, 0, 2] : List Float) 2 4 ∧
      toLex ((0, 3) : ℕ × ℕ) < toLex (1, 5) ∧
      ¬ Repeats ([0 / 0, 2, -0, 0 / 0, 0, 2] : List Float) 0 3) ∧
    double.distinctPowerTable [0 / 0, 2, -0, 0 / 0, 0, 2] = throw (.repeatedNode 1 5) ∧
    double.distinctPowerTable [0 / 0, 2, 0 / 0] = liftM (double.powerTable [0 / 0, 2, 0 / 0]) := by
  have hfirst : firstRepetition? ([0 / 0, 2, -0, 0 / 0, 0, 2] : List Float) = some (1, 5) := by
    decide
  have hnone : firstRepetition? ([0 / 0, 2, 0 / 0] : List Float) = none := by decide
  have hlt : toLex ((0, 3) : ℕ × ℕ) < toLex (1, 5) := by decide
  obtain ⟨hsome, -, -, hrefused, -⟩ :=
    firstRepetition_decides_table double [0 / 0, 2, -0, 0 / 0, 0, 2]
  obtain ⟨-, hnever, -, -, htable⟩ := firstRepetition_decides_table double [0 / 0, 2, 0 / 0]
  have hzeros : Repeats ([0 / 0, 2, -0, 0 / 0, 0, 2] : List Float) 2 4 :=
    ⟨by decide, by decide, by decide, by decide⟩
  exact ⟨⟨hzeros, hlt, ((hsome 1 5).mp hfirst).2 0 3 hlt⟩, hrefused 1 5 hfirst,
    htable (by simp) (hnever.mp hnone)⟩

end DistinctTable

end Collocation
