import Collocation.Proofs.Linear.Solutions
import Mathlib.LinearAlgebra.LinearIndependent.Lemmas

/-!
# The column that has no pivot

Elimination keeps the linear relations between the columns of a matrix. Columns that have found
a pivot are independent, and a column that finds none is a combination of the columns before
it. A refusal of the solver therefore names the first column that depends on its predecessors,
whatever the right-hand side and the order of the rows.
-/

set_option autoImplicit false

namespace Collocation

namespace SquareMatrix

variable {α : Type}

def column [Zero α] (a : SquareMatrix α) (j : ℕ) : Fin a.dim → α :=
  fun r => (a.toRows.getD r []).getD j 0

def columnsBefore [Zero α] (a : SquareMatrix α) (k : ℕ) : Fin k → Fin a.dim → α :=
  fun j => a.column j

theorem entry_eq_column [Zero α] (a : SquareMatrix α) (r : Fin a.dim) {j : ℕ} (hj : j < a.dim) :
    a.entry r j = .ok (a.column j r) := by
  rw [a.entry_eq_ok_iff, column, a.getD_toRows, a.get?_of_lt ⟨r.isLt, hj⟩, Option.getD_some]

theorem column_eq_getElem [Zero α] (a : SquareMatrix α) (j : ℕ) {r : ℕ} (hr : r < a.dim)
    (hrow : r < a.toRows.length) : a.column j ⟨r, hr⟩ = a.toRows[r].getD j 0 := by
  rw [column, List.getD_eq_getElem _ _ hrow]

variable (a : SquareMatrix ℚ)

def DependsOnEarlier (k : ℕ) : Prop :=
  a.column k ∈ Submodule.span ℚ (Set.range (a.columnsBefore k))

theorem linearIndependent_columnsBefore_succ (k : ℕ) :
    LinearIndependent ℚ (a.columnsBefore (k + 1)) ↔
      LinearIndependent ℚ (a.columnsBefore k) ∧ ¬ a.DependsOnEarlier k :=
  linearIndependent_finSucc'

theorem linearIndependent_columnsBefore_iff (k : ℕ) :
    LinearIndependent ℚ (a.columnsBefore k) ↔ ∀ j < k, ¬ a.DependsOnEarlier j := by
  induction k with
  | zero =>
    constructor
    · intro _ j hj
      exact absurd hj (Nat.not_lt_zero j)
    · intro _
      exact linearIndependent_empty_type
  | succ k ih => rw [linearIndependent_columnsBefore_succ, ih, Nat.forall_lt_succ_right]

theorem isLeast_dependsOnEarlier_iff (k : ℕ) :
    IsLeast {j | j < a.dim ∧ a.DependsOnEarlier j} k ↔
      k < a.dim ∧ LinearIndependent ℚ (a.columnsBefore k) ∧ a.DependsOnEarlier k := by
  rw [linearIndependent_columnsBefore_iff]
  constructor
  · intro h
    have hfirst : ∀ j < k, ¬ a.DependsOnEarlier j := by
      intro j hj hdep
      have hle := h.2 ⟨hj.trans h.1.1, hdep⟩
      omega
    exact ⟨h.1.1, hfirst, h.1.2⟩
  · intro h
    have hlower : k ∈ lowerBounds {j | j < a.dim ∧ a.DependsOnEarlier j} := by
      intro j hj
      by_contra hlt
      exact h.2.1 j (not_le.mp hlt) hj.2
    exact ⟨⟨h.1, h.2.2⟩, hlower⟩

/-- A relation between columns is a relation between the entries of each row. -/
theorem dependsOnEarlier_iff_rows (k : ℕ) :
    a.DependsOnEarlier k ↔
      ∃ w : Fin k → ℚ, ∀ row ∈ a.toRows, ∑ j, w j * row.getD j 0 = row.getD k 0 := by
  rw [DependsOnEarlier, Submodule.mem_span_range_iff_exists_fun]
  apply exists_congr
  intro w
  have hentry : ∀ r (hr : r < a.dim) (hrow : r < a.toRows.length),
      (∑ j, w j • a.columnsBefore k j) ⟨r, hr⟩ = ∑ j, w j * a.toRows[r].getD j 0 := by
    intro r hr hrow
    rw [Finset.sum_apply]
    apply Finset.sum_congr rfl
    intro j _
    rw [Pi.smul_apply, columnsBefore, a.column_eq_getElem j hr hrow, smul_eq_mul]
  constructor
  · intro h row hrow
    obtain ⟨r, hr, rfl⟩ := List.mem_iff_getElem.mp hrow
    have hdim : r < a.dim := by rwa [a.length_toRows] at hr
    rw [← hentry r hdim hr, h, a.column_eq_getElem k hdim hr]
  · intro h
    ext r
    have hr : r.val < a.toRows.length := by rw [a.length_toRows]; exact r.isLt
    rw [hentry r r.isLt hr, h _ (List.getElem_mem hr), a.column_eq_getElem k r.isLt hr]

theorem dependsOnEarlier_congr_perm {a b : SquareMatrix ℚ} (h : b.toRows.Perm a.toRows) (k : ℕ) :
    b.DependsOnEarlier k ↔ a.DependsOnEarlier k := by
  rw [dependsOnEarlier_iff_rows, dependsOnEarlier_iff_rows]
  simp only [h.mem_iff]

theorem toRows_perm_of_zip {a b : SquareMatrix ℚ} {u v : List ℚ} (hu : u.length = a.dim)
    (hv : v.length = b.dim) (h : (b.toRows.zip v).Perm (a.toRows.zip u)) :
    b.toRows.Perm a.toRows := by
  have hrows := h.map Prod.fst
  rwa [List.map_fst_zip (by simp [hv]), List.map_fst_zip (by simp [hu])] at hrows

end SquareMatrix

variable {a : SquareMatrix ℚ} {rhs : List ℚ} {k : ℕ} {g : ℕ → ℕ → ℚ}

theorem annihilates_iff_columns (a : SquareMatrix ℚ) (rhs : List ℚ) (hk : k ≤ a.dim)
    (w : ℕ → ℚ) :
    Annihilates a.dim k (augmentedEntry a.toRows rhs a.dim) w ↔
      ∑ j : Fin k, w j • a.columnsBefore k j = 0 := by
  have hrow : ∀ r : Fin a.dim,
      ∑ j ∈ Finset.range k, augmentedEntry a.toRows rhs a.dim r j * w j =
        (∑ j : Fin k, w j • a.columnsBefore k j) r := by
    intro r
    rw [Finset.sum_range, Finset.sum_apply]
    apply Finset.sum_congr rfl
    intro j _
    rw [augmentedEntry, if_pos (j.isLt.trans_le hk), mul_comm]
    rfl
  constructor
  · intro h
    ext r
    rw [← hrow r, h r r.isLt]
    rfl
  · intro h r hr
    rw [hrow ⟨r, hr⟩, h]
    rfl

theorem Reaches.linearIndependent_columns
    (h : Reaches (· / ·) a.dim (augmentedEntry a.toRows rhs a.dim) k g) (hk : k ≤ a.dim) :
    LinearIndependent ℚ (a.columnsBefore k) := by
  rw [Fintype.linearIndependent_iff]
  intro v hv i
  let w : ℕ → ℚ := fun j => if hj : j < k then v ⟨j, hj⟩ else 0
  have hw : ∀ j : Fin k, w j = v j := fun j => dif_pos j.isLt
  have hann : Annihilates a.dim k (augmentedEntry a.toRows rhs a.dim) w := by
    rw [annihilates_iff_columns a rhs hk]
    simp only [hw]
    exact hv
  have hin : i.val < a.dim := i.isLt.trans_le hk
  have hrow := (h.annihilates_iff w).mpr hann i hin
  rw [(h.unitColumns fun x hx => div_self hx).sum_eq hin, if_pos i.isLt] at hrow
  rw [← hw i, hrow]

theorem Reaches.dependsOnEarlier
    (h : Reaches (· / ·) a.dim (augmentedEntry a.toRows rhs a.dim) k g) (hk : k < a.dim)
    (hz : ∀ r, k ≤ r → r < a.dim → g r k = 0) : a.DependsOnEarlier k := by
  have hdep := annihilates_dependency (Nat.lt_succ_self k)
    (h.unitColumns fun x hx => div_self hx) hz
  have hrel := (annihilates_iff_columns a rhs hk _).mp ((h.annihilates_iff _).mp hdep)
  rw [Fin.sum_univ_castSucc] at hrel
  have hlast : dependency g k (Fin.last k).val = 1 := by simp [dependency]
  have hbefore : ∀ j : Fin k, dependency g k j.castSucc.val = -g j k := by
    intro j
    simp [dependency]
  simp only [hlast, hbefore, one_smul, neg_smul, Finset.sum_neg_distrib] at hrel
  apply (Submodule.mem_span_range_iff_exists_fun ℚ).mpr
  exact ⟨fun j => g j k, neg_add_eq_zero.mp hrel⟩

/-- The solver refuses a system at column `k` exactly if that column is the first one that
depends on earlier ones. -/
theorem solve_eq_singular_iff (hb : rhs.length = a.dim) (k : ℕ) :
    rational.solve a rhs = throw (.singular k) ↔
      IsLeast {j | j < a.dim ∧ a.DependsOnEarlier j} k := by
  rcases Arithmetic.rational_isExact.solve_cases a hb with
    ⟨g, hg, hrun⟩ | ⟨l, hl, g, hg, hz, hrun⟩
  · have hindep := (a.linearIndependent_columnsBefore_iff a.dim).mp
      (hg.linearIndependent_columns (le_refl _))
    rw [hrun]
    constructor
    · intro h
      exact absurd h (pure_ne_throw _ _)
    · intro h
      exact absurd h.1.2 (hindep k h.1.1)
  · have hfirst : IsLeast {j | j < a.dim ∧ a.DependsOnEarlier j} l :=
      (a.isLeast_dependsOnEarlier_iff l).mpr
        ⟨hl, hg.linearIndependent_columns hl.le, hg.dependsOnEarlier hl hz⟩
    rw [hrun, throw_inj, Rejection.singular.injEq]
    constructor
    · intro h
      rwa [← h]
    · intro h
      exact hfirst.unique h

/-- The column of a refusal has independent predecessors and is a combination of them, it is the
least column that depends on its predecessors, and it stays the same if the equations are
written in another order. -/
theorem singular_names_first_dependent_column (a : SquareMatrix ℚ) (rhs : List ℚ)
    (hb : rhs.length = a.dim) (k : ℕ) :
    (rational.solve a rhs = throw (.singular k) ↔
      k < a.dim ∧ LinearIndependent ℚ (a.columnsBefore k) ∧
        a.column k ∈ Submodule.span ℚ (Set.range (a.columnsBefore k))) ∧
    (rational.solve a rhs = throw (.singular k) ↔
      IsLeast {j | j < a.dim ∧
        a.column j ∈ Submodule.span ℚ (Set.range (a.columnsBefore j))} k) ∧
    ∀ (b : SquareMatrix ℚ) (v : List ℚ), v.length = b.dim →
      (b.toRows.zip v).Perm (a.toRows.zip rhs) →
      (rational.solve b v = throw (.singular k) ↔ rational.solve a rhs = throw (.singular k)) := by
  have hleast := solve_eq_singular_iff hb k
  constructor
  · rw [hleast]
    exact a.isLeast_dependsOnEarlier_iff k
  constructor
  · exact hleast
  · intro b v hv hperm
    have hrows := SquareMatrix.toRows_perm_of_zip hb hv hperm
    have hdim : b.dim = a.dim := by
      rw [← b.length_toRows, hrows.length_eq, a.length_toRows]
    rw [hleast, solve_eq_singular_iff hv k, hdim]
    simp only [SquareMatrix.dependsOnEarlier_congr_perm hrows]

/-- The last column is the sum of the others, and the first row has to move for a pivot. -/
theorem singular_names_third_column :
    ([1, 2, 3] : List ℚ).length = 3 ∧
      rational.solve ⟨3, [0, 2, 2, 1, 1, 2, 3, 0, 3], rfl⟩ [1, 2, 3] = throw (.singular 2) ∧
      LinearIndependent ℚ
        ((⟨3, [0, 2, 2, 1, 1, 2, 3, 0, 3], rfl⟩ : SquareMatrix ℚ).columnsBefore 2) ∧
      rational.solve ⟨3, [3, 0, 3, 0, 2, 2, 1, 1, 2], rfl⟩ [3, 1, 2] = throw (.singular 2) := by
  have hrun : rational.solve ⟨3, [0, 2, 2, 1, 1, 2, 3, 0, 3], rfl⟩ [1, 2, 3] =
      throw (.singular 2) := by with_unfolding_all rfl
  have h := singular_names_first_dependent_column ⟨3, [0, 2, 2, 1, 1, 2, 3, 0, 3], rfl⟩
    [1, 2, 3] rfl 2
  exact ⟨rfl, hrun, (h.1.mp hrun).2.1,
    (h.2.2 ⟨3, [3, 0, 3, 0, 2, 2, 1, 1, 2], rfl⟩ [3, 1, 2] rfl (by decide)).mpr hrun⟩

end Collocation
