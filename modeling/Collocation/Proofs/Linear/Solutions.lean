import Collocation.Proofs.Linear.RowOperations
import Collocation.Proofs.Linear.Views

/-!
# Solving a system

A solution is a list that the matrix multiplies to the right-hand side. An equation is a sum over
the entries at the positions of one row, wherever the storage has them. Over the rationals the
solver returns a list exactly when the system has one solution and no other, and it returns
that solution. With no solution or with many, it reports a column without a pivot.
-/

set_option autoImplicit false

namespace Collocation

variable {α : Type}

def dot [Semiring α] (row c : List α) : α := (List.zipWith (· * ·) row c).sum

theorem dot_eq_sum [Semiring α] {row c : List α} (h : c.length = row.length) :
    dot row c = ∑ k ∈ Finset.range row.length, row.getD k 0 * c.getD k 0 := by
  induction row generalizing c with
  | nil => simp [dot]
  | cons a row ih =>
    cases c with
    | nil => simp at h
    | cons b c =>
      have ht := ih (Nat.succ.inj h)
      rw [dot] at ht ⊢
      rw [List.zipWith_cons_cons, List.sum_cons, ht, List.length_cons, Finset.sum_range_succ',
        add_comm]
      rfl

namespace SquareMatrix

def mulVec [Semiring α] (a : SquareMatrix α) (c : List α) : List α :=
  a.toRows.map fun row => dot row c

structure IsSolution [Semiring α] (a : SquareMatrix α) (rhs c : List α) : Prop where
  length_eq : c.length = a.dim
  mulVec_eq : a.mulVec c = rhs

theorem getD_toRows [Zero α] (a : SquareMatrix α) (i j : ℕ) :
    (a.toRows.getD i []).getD j 0 = (a.get? i j).getD 0 := by
  rw [get?_eq_toRows, List.getD_eq_getElem?_getD, List.getD_eq_getElem?_getD]
  cases a.toRows[i]? <;> rfl

variable [Semiring α] (a : SquareMatrix α) {rhs c : List α}

theorem length_mulVec (c : List α) : (a.mulVec c).length = a.dim := by
  rw [mulVec, List.length_map, a.length_toRows]

/-- An entry of the product is a sum over the entries at the positions of one row. -/
theorem getD_mulVec (hc : c.length = a.dim) {i : ℕ} (hi : i < a.dim) :
    (a.mulVec c).getD i 0 = ∑ j ∈ Finset.range a.dim, (a.get? i j).getD 0 * c.getD j 0 := by
  have hrow : i < a.toRows.length := by rwa [a.length_toRows]
  have hlen : a.toRows[i].length = a.dim := a.length_of_mem_toRows _ (List.getElem_mem hrow)
  have hget : (a.mulVec c).getD i 0 = dot a.toRows[i] c := by
    simp [mulVec, hi]
  rw [hget, dot_eq_sum (hc.trans hlen.symm), hlen]
  apply Finset.sum_congr rfl
  intro j _
  rw [← a.getD_toRows, List.getD_eq_getElem _ _ hrow]

/-- The equations of a system, entry by entry. -/
theorem isSolution_iff_entries : a.IsSolution rhs c ↔
    c.length = a.dim ∧ rhs.length = a.dim ∧ ∀ i < a.dim,
      ∑ j ∈ Finset.range a.dim, (a.get? i j).getD 0 * c.getD j 0 = rhs.getD i 0 := by
  constructor
  · intro h
    refine ⟨h.length_eq, ?_, ?_⟩
    · rw [← h.mulVec_eq, length_mulVec]
    · intro i hi
      rw [← a.getD_mulVec h.length_eq hi, h.mulVec_eq]
  · intro h
    obtain ⟨hc, hrhs, hsum⟩ := h
    refine ⟨hc, List.ext_getElem (by rw [length_mulVec, hrhs]) ?_⟩
    intro i hi hi'
    have hentry := hsum i (by omega)
    rw [← a.getD_mulVec hc (by omega)] at hentry
    simpa [hi, hi'] using hentry

end SquareMatrix

/-- The entries of `c` and then minus one, so that a row with its right-hand side annihilates
the vector if the row times `c` is the right-hand side. -/
def extended [Ring α] (n : ℕ) (c : List α) (k : ℕ) : α := if k < n then c.getD k 0 else -1

theorem annihilates_extended_iff [Ring α] (a : SquareMatrix α) {rhs c : List α}
    (hb : rhs.length = a.dim) (hc : c.length = a.dim) :
    Annihilates a.dim (a.dim + 1) (augmentedEntry a.toRows rhs a.dim) (extended a.dim c) ↔
      a.mulVec c = rhs := by
  have hrow : ∀ r (hr : r < a.dim),
      ∑ k ∈ Finset.range (a.dim + 1), augmentedEntry a.toRows rhs a.dim r k * extended a.dim c k =
        (a.mulVec c).getD r 0 - rhs.getD r 0 := by
    intro r hr
    rw [Finset.sum_range_succ, a.getD_mulVec hc hr, sub_eq_add_neg]
    congr 1
    · apply Finset.sum_congr rfl
      intro k hk
      have hkn := Finset.mem_range.mp hk
      rw [augmentedEntry, if_pos hkn, extended, if_pos hkn, a.getD_toRows]
    · simp [augmentedEntry, extended]
  have hlenv := a.length_mulVec c
  constructor
  · intro h
    apply List.ext_getElem (by omega)
    intro r hv hr
    have hzero := h r (by omega)
    rw [hrow r (by omega), sub_eq_zero] at hzero
    simpa [hv, hr] using hzero
  · intro h r hr
    rw [hrow r hr, h, sub_self]

theorem annihilates_of_unitColumns_iff [Ring α] {n : ℕ} {g : ℕ → ℕ → α}
    (hu : UnitColumns n g n) (c : List α) :
    Annihilates n (n + 1) g (extended n c) ↔ ∀ r < n, c.getD r 0 = g r n := by
  have hrow : ∀ r (hr : r < n),
      ∑ k ∈ Finset.range (n + 1), g r k * extended n c k = c.getD r 0 - g r n := by
    intro r hr
    rw [Finset.sum_range_succ, hu.sum_eq hr, if_pos hr, extended, extended, if_pos hr,
      if_neg (lt_irrefl n), mul_neg_one, sub_eq_add_neg]
  constructor
  · intro h r hr
    exact sub_eq_zero.mp ((hrow r hr).symm.trans (h r hr))
  · intro h r hr
    rw [hrow r hr, h r hr, sub_self]

theorem isSolution_iff_of_reaches {a : SquareMatrix ℚ} {rhs : List ℚ} {g : ℕ → ℕ → ℚ}
    (hb : rhs.length = a.dim)
    (h : Reaches (· / ·) a.dim (augmentedEntry a.toRows rhs a.dim) a.dim g) (c : List ℚ) :
    a.IsSolution rhs c ↔ c = (List.range a.dim).map fun r => g r a.dim := by
  have hu := h.unitColumns fun x hx => div_self hx
  constructor
  · intro hc
    have hann := (annihilates_extended_iff a hb hc.length_eq).mpr hc.mulVec_eq
    rw [← h.annihilates_iff, annihilates_of_unitColumns_iff hu] at hann
    apply eq_map_range hc.length_eq
    intro r hr
    have hval := hann r (by rw [← hc.length_eq]; exact hr)
    simpa [hr] using hval
  · rintro rfl
    have hlen : ((List.range a.dim).map fun r => g r a.dim).length = a.dim := by simp
    refine ⟨hlen, (annihilates_extended_iff a hb hlen).mp ?_⟩
    rw [← h.annihilates_iff, annihilates_of_unitColumns_iff hu]
    intro r hr
    rw [getD_map_range hr]

theorem not_unique_of_reaches {a : SquareMatrix ℚ} {rhs : List ℚ} {k : ℕ} {g : ℕ → ℕ → ℚ}
    (hb : rhs.length = a.dim) (hk : k < a.dim)
    (h : Reaches (· / ·) a.dim (augmentedEntry a.toRows rhs a.dim) k g)
    (hz : ∀ r, k ≤ r → r < a.dim → g r k = 0) : ¬ ∃! c, a.IsSolution rhs c := by
  rintro ⟨c, hc, hunique⟩
  have hu := h.unitColumns fun x hx => div_self hx
  have hdep := annihilates_dependency (m := a.dim + 1) (by omega) hu hz
  have hann := (annihilates_extended_iff a hb hc.length_eq).mpr hc.mulVec_eq
  rw [← h.annihilates_iff] at hann
  -- The dependency leaves the right-hand side alone, so adding it gives a second solution.
  let c' : List ℚ := (List.range a.dim).map fun j => c.getD j 0 + dependency g k j
  have hlen : c'.length = a.dim := by simp [c']
  have hext : ∀ j ∈ Finset.range (a.dim + 1),
      extended a.dim c' j = extended a.dim c j + dependency g k j := by
    intro j hj
    have hjn : j < a.dim + 1 := Finset.mem_range.mp hj
    by_cases hlt : j < a.dim
    · simp only [extended, if_pos hlt]
      exact getD_map_range hlt _ 0
    · simp [extended, hlt, dependency, show ¬ j < k by omega, show j ≠ k by omega]
  have hother : a.IsSolution rhs c' := by
    refine ⟨hlen, (annihilates_extended_iff a hb hlen).mp ?_⟩
    rw [← h.annihilates_iff]
    intro r hr
    have hsplit : ∀ j ∈ Finset.range (a.dim + 1), g r j * extended a.dim c' j =
        g r j * extended a.dim c j + g r j * dependency g k j := by
      intro j hj
      rw [hext j hj, mul_add]
    rw [Finset.sum_congr rfl hsplit, Finset.sum_add_distrib, hann r hr, hdep r hr, add_zero]
  have hsame : c'.getD k 0 = c.getD k 0 := by rw [hunique c' hother]
  rw [getD_map_range hk] at hsame
  simp [dependency] at hsame

/-- The solver finds the solution if there is exactly one, and says otherwise that the matrix
is singular. A right-hand side of the wrong length is refused first. -/
theorem solve_eq_pure_iff_unique (a : SquareMatrix ℚ) (rhs : List ℚ) :
    (rhs.length ≠ a.dim →
      rational.solve a rhs = throw (.dimensionMismatch a.dim rhs.length)) ∧
    (rhs.length = a.dim →
      (∀ c, rational.solve a rhs = pure c ↔
        a.IsSolution rhs c ∧ ∀ c', a.IsSolution rhs c' → c' = c) ∧
      ((¬ ∃! c, a.IsSolution rhs c) →
        ∃ k < a.dim, rational.solve a rhs = throw (.singular k))) := by
  refine ⟨fun hne => Arithmetic.solve_of_length_ne hne, fun hb => ?_⟩
  rcases Arithmetic.rational_isExact.solve_cases a hb with
    ⟨g, hg, hrun⟩ | ⟨k, hk, g, hg, hz, hrun⟩
  · have hsol := isSolution_iff_of_reaches hb hg
    have hthe : a.IsSolution rhs ((List.range a.dim).map fun r => g r a.dim) :=
      (hsol _).mpr rfl
    have huniq : ∀ c', a.IsSolution rhs c' → c' = (List.range a.dim).map fun r => g r a.dim :=
      fun c' hc' => (hsol c').mp hc'
    constructor
    · intro c
      rw [hrun, pure_inj]
      constructor
      · rintro rfl
        exact ⟨hthe, huniq⟩
      · rintro ⟨hc, _⟩
        exact (huniq c hc).symm
    · intro hnot
      exact absurd ⟨_, hthe, huniq⟩ hnot
  · have hnot := not_unique_of_reaches hb hk hg hz
    constructor
    · intro c
      rw [hrun]
      constructor
      · intro h
        exact absurd h (throw_ne_pure _ _)
      · rintro ⟨hc, huniq⟩
        exact absurd ⟨c, hc, huniq⟩ hnot
    · intro _
      exact ⟨k, hk, hrun⟩

/-- Two equations of which the first has to move, two that say the same, and one value too few. -/
theorem solve_eq_pure_iff_unique_exchange :
    (rational.solve ⟨2, [0, 2, 3, 1], rfl⟩ [2, 4] = pure [1, 1] ∧
      (⟨2, [0, 2, 3, 1], rfl⟩ : SquareMatrix ℚ).IsSolution [2, 4] [1, 1] ∧
      ∀ c, (⟨2, [0, 2, 3, 1], rfl⟩ : SquareMatrix ℚ).IsSolution [2, 4] c → c = [1, 1]) ∧
    ((¬ ∃! c, (⟨2, [1, 2, 2, 4], rfl⟩ : SquareMatrix ℚ).IsSolution [1, 2] c) ∧
      ∃ k < 2, rational.solve ⟨2, [1, 2, 2, 4], rfl⟩ [1, 2] = throw (.singular k)) ∧
    rational.solve ⟨2, [1, 2, 2, 4], rfl⟩ [1] = throw (.dimensionMismatch 2 1) := by
  have hsolve : rational.solve ⟨2, [0, 2, 3, 1], rfl⟩ [2, 4] = pure [1, 1] := by
    with_unfolding_all rfl
  have hunique := ((solve_eq_pure_iff_unique ⟨2, [0, 2, 3, 1], rfl⟩ [2, 4]).2 rfl).1 [1, 1]
  have hlength := (solve_eq_pure_iff_unique ⟨2, [1, 2, 2, 4], rfl⟩ [1]).1
  have hmany : ¬ ∃! c, (⟨2, [1, 2, 2, 4], rfl⟩ : SquareMatrix ℚ).IsSolution [1, 2] c := by
    intro hone
    have hfirst : (⟨2, [1, 2, 2, 4], rfl⟩ : SquareMatrix ℚ).IsSolution [1, 2] [1, 0] :=
      ⟨rfl, by decide +kernel⟩
    have hsecond : (⟨2, [1, 2, 2, 4], rfl⟩ : SquareMatrix ℚ).IsSolution [1, 2] [-1, 1] :=
      ⟨rfl, by decide +kernel⟩
    exact absurd (hone.unique hfirst hsecond) (by decide)
  have hsingular := (solve_eq_pure_iff_unique ⟨2, [1, 2, 2, 4], rfl⟩ [1, 2]).2 rfl
  exact ⟨⟨hsolve, hunique.mp hsolve⟩, ⟨hmany, hsingular.2 hmany⟩, hlength (by decide)⟩

end Collocation
