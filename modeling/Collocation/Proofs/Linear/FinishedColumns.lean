import Collocation.Proofs.Linear.RightHandSide
import Collocation.Proofs.Linear.RowLengths
import Collocation.Proofs.Linear.Solutions

/-!
# The rows between two columns

A run that has found a pivot in each of its first columns holds rows in which these columns are
unit vectors, whether or not its quotients are exact. Over the rational numbers the rows at this
point have the solutions of the system that the run began with: no exchange, no division and no
subtraction above or below the pivot has gained or lost one.
-/

set_option autoImplicit false

namespace Collocation

variable {α : Type}

def unitVector [Zero α] [One α] (n j : ℕ) : List α :=
  (List.range n).map fun r => if r = j then 1 else 0

structure SolvesRows [Semiring α] (n : ℕ) (rows : List (List α)) (v : List α) : Prop where
  length_eq : v.length = n
  dot_eq (row : List α) (h : row ∈ rows) : dot (row.take n) v = row.getD n 0

theorem column_tabulate [Zero α] (n : ℕ) {w j : ℕ} (hj : j < w) (g : ℕ → ℕ → α) :
    (tabulate n w g).map (fun row => row.getD j 0) = (List.range n).map fun r => g r j := by
  rw [tabulate, List.map_map]
  apply List.map_congr_left
  intro r _
  exact getD_map_range hj (g r) 0

theorem UnitColumns.column_eq [Zero α] [One α] {n w c j : ℕ} {g : ℕ → ℕ → α}
    (h : UnitColumns n g c) (hj : j < c) (hw : c ≤ w) :
    (tabulate n w g).map (fun row => row.getD j 0) = unitVector n j := by
  rw [column_tabulate n (by omega)]
  apply List.map_congr_left
  intro r hr
  exact h r (List.mem_range.mp hr) j hj

theorem dot_take_map_range [Ring α] {n : ℕ} (g : ℕ → α) {v : List α} (hv : v.length = n) :
    dot (((List.range (n + 1)).map g).take n) v - g n =
      ∑ k ∈ Finset.range (n + 1), g k * extended n v k := by
  rw [take_map_range (Nat.le_succ n), dot_eq_sum (by simpa using hv), Finset.sum_range_succ,
    extended, if_neg (lt_irrefl n), mul_neg_one, ← sub_eq_add_neg, List.length_map,
    List.length_range]
  congr 1
  apply Finset.sum_congr rfl
  intro k hk
  have hkn := Finset.mem_range.mp hk
  rw [getD_map_range hkn, extended, if_pos hkn]

theorem solvesRows_tabulate_iff [Ring α] {n : ℕ} (g : ℕ → ℕ → α) {v : List α}
    (hv : v.length = n) :
    SolvesRows n (tabulate n (n + 1) g) v ↔ Annihilates n (n + 1) g (extended n v) := by
  have hlast : ∀ r, ((List.range (n + 1)).map (g r)).getD n 0 = g r n := fun r =>
    getD_map_range (Nat.lt_succ_self n) (g r) 0
  constructor
  · intro h r hr
    have hrow := h.dot_eq _ (List.mem_map.mpr ⟨r, List.mem_range.mpr hr, rfl⟩)
    rw [hlast] at hrow
    rw [← dot_take_map_range (g r) hv, hrow, sub_self]
  · intro h
    refine ⟨hv, ?_⟩
    intro row hrow
    obtain ⟨r, hr, rfl⟩ := List.mem_map.mp hrow
    have hsum := h r (List.mem_range.mp hr)
    rw [← dot_take_map_range (g r) hv, sub_eq_zero] at hsum
    rw [hlast, hsum]

theorem Reaches.solvesRows_iff [Field α] {a : SquareMatrix α} {rhs : List α} {c : ℕ}
    {g : ℕ → ℕ → α} (hb : rhs.length = a.dim)
    (h : Reaches (· / ·) a.dim (augmentedEntry a.toRows rhs a.dim) c g) (v : List α) :
    SolvesRows a.dim (tabulate a.dim (a.dim + 1) g) v ↔ a.IsSolution rhs v := by
  by_cases hv : v.length = a.dim
  · rw [solvesRows_tabulate_iff g hv, h.annihilates_iff, annihilates_extended_iff a hb hv]
    exact ⟨fun hmul => ⟨hv, hmul⟩, fun hsol => hsol.mulVec_eq⟩
  · exact iff_of_false (fun hsol => hv hsol.length_eq) fun hsol => hv hsol.length_eq

namespace Arithmetic

variable [CommRing α] {quot : α → α → α} {A : Arithmetic (Except Trap) α} {c : ℕ}

theorem IsExact.exists_reaches (h : A.IsExact quot) {n w : ℕ} {f : ℕ → ℕ → α} (hc : c ≤ n)
    (hw : c ≤ w) (hpivots : ∀ k < c, ∃ p, A.TakesPivot (tabulate n w f) k p) :
    ∃ g, Reaches quot n f c g ∧ A.reduce (tabulate n w f) c = pure (tabulate n w g) := by
  induction c with
  | zero => exact ⟨f, .start, rfl⟩
  | succ c ih =>
    obtain ⟨g, hg, hrun⟩ := ih (by omega) (by omega) fun k hk => hpivots k (by omega)
    obtain ⟨p, hp⟩ := hpivots c (Nat.lt_succ_self c)
    rw [takesPivot_of_reduced hrun] at hp
    have hpivot := h.pivotRow?_tabulate_eq_some hw hp
    refine ⟨_, hg.column hpivot, ?_⟩
    rw [reduce, hrun, pure_bind]
    exact clearColumn_of_some hp (h.eliminate_tabulate hc hw hpivot.lt hpivot.ne_zero)

theorem IsExact.exists_reduced (h : A.IsExact quot) {a : SquareMatrix α} {rhs : List α}
    (hb : rhs.length = a.dim) (hc : c ≤ a.dim)
    (hpivots : ∀ k < c, ∃ p, A.TakesPivot (augment a.toRows rhs) k p) :
    ∃ g, Reaches quot a.dim (augmentedEntry a.toRows rhs a.dim) c g ∧
      A.reduce (augment a.toRows rhs) c = pure (tabulate a.dim (a.dim + 1) g) ∧
      ∀ j < c, (tabulate a.dim (a.dim + 1) g).map (fun row => row.getD j 0) =
        unitVector a.dim j := by
  rw [augment_eq_tabulate a.length_toRows hb a.length_of_mem_toRows] at hpivots ⊢
  obtain ⟨g, hg, hrun⟩ := h.exists_reaches hc (by omega) hpivots
  have hone : ∀ x : α, x ≠ 0 → quot x x = 1 := by
    intro x hx
    have hquot := h.quot_mul 1 x hx
    rwa [mul_one] at hquot
  exact ⟨g, hg, hrun, fun j hj => (hg.unitColumns hone).column_eq hj (by omega)⟩

end Arithmetic

/-- At every stage of a run that has found its pivots so far, the columns that are done are unit
vectors, for truncating integers as well; and over the rational numbers the rows have the
solutions of the system. -/
theorem finished_columns_keep_solutions :
    (∀ (a : SquareMatrix ℚ) (rhs : List ℚ) (c : ℕ), rhs.length = a.dim → c ≤ a.dim →
      (∀ k < c, ∃ p, rational.TakesPivot (augment a.toRows rhs) k p) →
      ∃ rows, rational.reduce (augment a.toRows rhs) c = pure rows ∧
        HasShape a.dim (a.dim + 1) rows ∧
        (∀ j < c, rows.map (fun row => row.getD j 0) = unitVector a.dim j) ∧
        ∀ v, SolvesRows a.dim rows v ↔ a.IsSolution rhs v) ∧
    ∀ (a : SquareMatrix ℤ) (rhs : List ℤ) (c : ℕ), rhs.length = a.dim → c ≤ a.dim →
      (∀ k < c, ∃ p, integer.TakesPivot (augment a.toRows rhs) k p) →
      ∃ rows, integer.reduce (augment a.toRows rhs) c = pure rows ∧
        HasShape a.dim (a.dim + 1) rows ∧
        ∀ j < c, rows.map (fun row => row.getD j 0) = unitVector a.dim j := by
  constructor
  · intro a rhs c hb hc hpivots
    obtain ⟨g, hg, hrun, hunit⟩ := Arithmetic.rational_isExact.exists_reduced hb hc hpivots
    exact ⟨_, hrun, hasShape_tabulate _ _ g, hunit, hg.solvesRows_iff hb⟩
  · intro a rhs c hb hc hpivots
    obtain ⟨g, -, hrun, hunit⟩ := Arithmetic.integer_isExact.exists_reduced hb hc hpivots
    exact ⟨_, hrun, hasShape_tabulate _ _ g, hunit⟩

/-- Two columns of a singular system, the first one after an exchange, and one column of an
integer system whose quotients are not exact. -/
theorem finished_columns_keep_solutions_exchange :
    (∀ k < 2, ∃ p, rational.TakesPivot (augment [[0, 2, 2], [1, 1, 2], [3, 0, 3]] [2, 2, 3]) k p) ∧
    (∃ rows, rational.reduce (augment [[0, 2, 2], [1, 1, 2], [3, 0, 3]] [2, 2, 3]) 2 = pure rows ∧
      rows.map (fun row => row.getD 1 0) = unitVector 3 1 ∧
      ∀ v, SolvesRows 3 rows v ↔
        (⟨3, [0, 2, 2, 1, 1, 2, 3, 0, 3], rfl⟩ : SquareMatrix ℚ).IsSolution [2, 2, 3] v) ∧
    (∀ k < 1, ∃ p, integer.TakesPivot (augment [[2, 3], [5, 7]] [1, 1]) k p) ∧
    ∃ rows, integer.reduce (augment [[2, 3], [5, 7]] [1, 1]) 1 = pure rows ∧
      rows.map (fun row => row.getD 0 0) = unitVector 2 0 := by
  have hrational : ∀ k < 2, ∃ p, rational.TakesPivot
      (augment [[0, 2, 2], [1, 1, 2], [3, 0, 3]] [2, 2, 3]) k p := by
    intro k hk
    obtain rfl | rfl : k = 0 ∨ k = 1 := by omega
    · exact ⟨1, _, rfl, by with_unfolding_all rfl⟩
    · exact ⟨1, _, by with_unfolding_all rfl, by with_unfolding_all rfl⟩
  have hinteger : ∀ k < 1, ∃ p, integer.TakesPivot (augment [[2, 3], [5, 7]] [1, 1]) k p := by
    intro k hk
    obtain rfl : k = 0 := by omega
    exact ⟨0, _, rfl, rfl⟩
  obtain ⟨rows, hrun, -, hunit, hsolutions⟩ := finished_columns_keep_solutions.1
    ⟨3, [0, 2, 2, 1, 1, 2, 3, 0, 3], rfl⟩ [2, 2, 3] 2 rfl (by decide) hrational
  obtain ⟨rows', hrun', -, hunit'⟩ := finished_columns_keep_solutions.2
    ⟨2, [2, 3, 5, 7], rfl⟩ [1, 1] 1 rfl (by decide) hinteger
  exact ⟨hrational, ⟨rows, hrun, hunit 1 (by decide), hsolutions⟩, hinteger,
    ⟨rows', hrun', hunit' 0 (by decide)⟩⟩

end Collocation
