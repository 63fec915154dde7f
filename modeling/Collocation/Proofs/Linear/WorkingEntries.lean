import Collocation.Proofs.Dense.CompleteHomogeneous
import Collocation.Proofs.Linear.PowerSystem
import Collocation.Proofs.Linear.RowLengths

/-!
# The entries of a power system at every stage

Over distinct nodes the rows of a power system stay where they are, and each of their entries is
known before every column. In a row that has not been a pivot row it is the product of the
differences to the earlier nodes times a complete homogeneous symmetric polynomial; in a row that
has, it is a coefficient of the remainder of a power. So the pivot is a product of node
differences and divides its row.
-/

set_option autoImplicit false

namespace Collocation

open Polynomial

variable {α : Type}

def entryAt [Zero α] (rows : List (List α)) (r k : ℕ) : α := (rows.getD r []).getD k 0

theorem entryAt_tabulate [Zero α] {n w r k : ℕ} (hr : r < n) (hk : k < w) (g : ℕ → ℕ → α) :
    entryAt (tabulate n w g) r k = g r k := by
  rw [entryAt, getD_tabulate hr, getD_map_range hk]

/-- The rows of the system of the nodes `xs` just before column `c`. No row moves, and the
quotients of the pivot row leave no remainder up to the right-hand side. -/
structure IsWorkingStage [CommRing α] (A : Arithmetic (Except Trap) α) (xs : List α) (c : ℕ)
    (rows : List (List α)) : Prop where
  shape : HasShape xs.length (xs.length + 1) rows
  below (r k : ℕ) (hc : c ≤ r) (hr : r < xs.length) (hk : k < xs.length) :
    entryAt rows r k = (∏ j ∈ Finset.range c, (xs.getD r 0 - xs.getD j 0)) *
      if k < c then 0 else completeHomogeneous (xs.getD · 0) (insert r (Finset.range c)) (k - c)
  above (r k : ℕ) (hr : r < c) (hc : c ≤ k) (hk : k < xs.length) :
    entryAt rows r k = (X ^ k %ₘ ∏ j ∈ Finset.range c, (X - C (xs.getD j 0))).coeff r
  pivotRow_eq : A.pivotRow? rows c = some c
  exchange_eq : exchange rows c c = rows
  pivot_eq : entryAt rows c c = ∏ j ∈ Finset.range c, (xs.getD c 0 - xs.getD j 0)
  quotient_exact (k : ℕ) (hk : k < xs.length) :
    ∃ q, A.div (entryAt rows c k) (entryAt rows c c) = .ok q ∧
      entryAt rows c c * q = entryAt rows c k

section Stages

variable [CommRing α] [IsDomain α] {quot : α → α → α} {z w : ℕ → α} {n c r k : ℕ}
  {g : ℕ → ℕ → α}

/-- A row that is not finished holds the values of the quotient, times those of the divisor. -/
theorem Staged.entry_of_le (h : Staged quot n z w c g)
    (hq : ∀ a b : α, b ≠ 0 → quot (b * a) b = a) (hz : Distinct z n) (hc : c ≤ r) (hr : r < n)
    (hk : k < n) :
    g r k = (∏ j ∈ Finset.range c, (z r - z j)) *
      if k < c then 0 else completeHomogeneous z (insert r (Finset.range c)) (k - c) := by
  have hzc : Distinct z c := fun j hj => hz j (by omega)
  have hsplit := congrArg (eval (z r)) (modByMonic_add_div (X ^ k : α[X]) (nodal z c))
  rw [eval_add, eval_mul, eval_divByMonic_nodal hz k hc hr, Lagrange.eval_nodal] at hsplit
  rw [h r hr k hk.le, columnValues_of_lt hk, stage, if_neg (by omega),
    newton_eval_eq_modByMonic hq _ hzc, ← hsplit, add_sub_cancel_left]

theorem Staged.entry_of_lt (h : Staged quot n z w c g)
    (hq : ∀ a b : α, b ≠ 0 → quot (b * a) b = a) (hz : Distinct z n) (hc : c ≤ n) (hr : r < c)
    (hk : k < n) : g r k = (X ^ k %ₘ ∏ j ∈ Finset.range c, (X - C (z j))).coeff r := by
  have hzc : Distinct z c := fun j hj => hz j (by omega)
  rw [h r (by omega) k hk.le, columnValues_of_lt hk, stage, if_pos hr,
    newton_eval_eq_modByMonic hq _ hzc]
  rfl

end Stages

namespace Arithmetic

variable [CommRing α] [IsDomain α] {quot : α → α → α} {A : Arithmetic (Except Trap) α}
  {xs ys : List α} {c : ℕ}

theorem IsExact.exists_staged (h : A.IsExact quot) (hd : xs.Nodup) (hl : ys.length = xs.length)
    (hc : c ≤ xs.length) :
    ∃ g, Staged quot xs.length (xs.getD · 0) (ys.getD · 0) c g ∧
      A.reduce (augment (powerMatrix xs).toRows ys) c =
        pure (tabulate xs.length (xs.length + 1) g) := by
  have hz := (distinct_getD_iff_nodup xs).mpr hd
  have hf := staged_powerMatrix quot xs ys
  have hrows := augment_eq_tabulate (powerMatrix xs).length_toRows hl
    (powerMatrix xs).length_of_mem_toRows
  rw [hrows]
  rcases h.reduce_cases xs.length (xs.length + 1) _ hc (by omega) with
    ⟨g, hg, hrun⟩ | ⟨k, hk, g, hg, hzero, -⟩
  · exact ⟨g, hg.staged_of_distinct h.quot_mul hz hf, hrun⟩
  · have hkn : k < xs.length := by omega
    exact absurd (hzero k (le_refl k) hkn)
      ((hg.staged_of_distinct h.quot_mul hz hf).diagonal_ne_zero h.quot_mul hz hkn)

theorem IsExact.isWorkingStage_tabulate (h : A.IsExact quot) (hd : xs.Nodup) {w : ℕ → α}
    {g : ℕ → ℕ → α} (hg : Staged quot xs.length (xs.getD · 0) w c g) (hc : c < xs.length) :
    IsWorkingStage A xs c (tabulate xs.length (xs.length + 1) g) := by
  have hz := (distinct_getD_iff_nodup xs).mpr hd
  have hne := hg.diagonal_ne_zero h.quot_mul hz hc
  have hentry : ∀ {r k : ℕ}, r < xs.length → k < xs.length →
      entryAt (tabulate xs.length (xs.length + 1) g) r k = g r k := fun hr hk =>
    entryAt_tabulate hr (by omega) g
  have hpivot : g c c = ∏ j ∈ Finset.range c, (xs.getD c 0 - xs.getD j 0) := by
    rw [hg.entry_of_le h.quot_mul hz (le_refl c) hc hc, if_neg (lt_irrefl c), Nat.sub_self,
      completeHomogeneous_zero, mul_one]
  refine ⟨hasShape_tabulate _ _ g, ?_, ?_, h.pivotRow?_tabulate_self hc (by omega) hne, ?_, ?_, ?_⟩
  · intro r k hcr hr hk
    rw [hentry hr hk, hg.entry_of_le h.quot_mul hz hcr hr hk]
  · intro r k hr _ hk
    rw [hentry (by omega) hk, hg.entry_of_lt h.quot_mul hz hc.le hr hk]
  · rw [exchange_tabulate hc hc, exchanged_self]
  · rw [hentry hc hc, hpivot]
  · intro k hk
    have hproduct := hg.entry_of_le h.quot_mul hz (le_refl c) hc hk
    rw [← hpivot] at hproduct
    obtain ⟨q, hq⟩ : g c c ∣ g c k := Dvd.intro _ hproduct.symm
    refine ⟨q, ?_, ?_⟩
    · rw [hentry hc hk, hentry hc hc, h.div_eq _ _ hne, hq, h.quot_mul _ _ hne]
    · rw [hentry hc hc, hentry hc hk, hq]

theorem IsExact.exists_workingStage (h : A.IsExact quot) (hd : xs.Nodup)
    (hl : ys.length = xs.length) (hc : c < xs.length) :
    ∃ table rows, A.powerTable xs = .ok table ∧
      A.reduce (augment table.toRows ys) c = pure rows ∧ IsWorkingStage A xs c rows := by
  obtain ⟨g, hg, hrun⟩ := h.exists_staged hd hl hc.le
  exact ⟨_, _, h.powerTable_eq xs, hrun, h.isWorkingStage_tabulate hd hg hc⟩

end Arithmetic

/-- Over distinct nodes, rational or integer, the system of a power table goes through every
column without an exchange and without a remainder in the matrix, and all its entries are
known. -/
theorem distinct_nodes_keep_their_rows :
    (∀ (xs ys : List ℚ) (c : ℕ), xs.Nodup → ys.length = xs.length → c < xs.length →
      ∃ table rows, rational.powerTable xs = .ok table ∧
        rational.reduce (augment table.toRows ys) c = pure rows ∧
        IsWorkingStage rational xs c rows) ∧
    ∀ (xs ys : List ℤ) (c : ℕ), xs.Nodup → ys.length = xs.length → c < xs.length →
      ∃ table rows, integer.powerTable xs = .ok table ∧
        integer.reduce (augment table.toRows ys) c = pure rows ∧
        IsWorkingStage integer xs c rows := by
  constructor
  · intro xs ys c hd hl hc
    exact Arithmetic.rational_isExact.exists_workingStage hd hl hc
  · intro xs ys c hd hl hc
    exact Arithmetic.integer_isExact.exists_workingStage hd hl hc

/-- Four nodes before the third column: the pivot is `(-2 - 1) * (-2 - 3)`, and what follows it is
a multiple of it. -/
theorem distinct_nodes_keep_their_rows_third_column :
    ([1, 3, -2, 5] : List ℤ).Nodup ∧
      ([0, 1, 2, 3] : List ℤ).length = ([1, 3, -2, 5] : List ℤ).length ∧
      integer.powerTable [1, 3, -2, 5] = .ok (powerMatrix [1, 3, -2, 5]) ∧
      integer.reduce (augment (powerMatrix [1, 3, -2, 5]).toRows [0, 1, 2, 3]) 2 =
        pure [[1, 0, -3, -12, 0], [0, 1, 4, 13, 0], [0, 0, 15, 30, 2], [0, 0, 8, 72, 3]] ∧
      IsWorkingStage integer [1, 3, -2, 5] 2
        [[1, 0, -3, -12, 0], [0, 1, 4, 13, 0], [0, 0, 15, 30, 2], [0, 0, 8, 72, 3]] := by
  have hd : ([1, 3, -2, 5] : List ℤ).Nodup := by decide
  have htable := Arithmetic.integer_isExact.powerTable_eq [1, 3, -2, 5]
  have hrun : integer.reduce (augment (powerMatrix [1, 3, -2, 5]).toRows [0, 1, 2, 3]) 2 =
      pure [[1, 0, -3, -12, 0], [0, 1, 4, 13, 0], [0, 0, 15, 30, 2], [0, 0, 8, 72, 3]] := by
    with_unfolding_all rfl
  obtain ⟨table, rows, htable', hrun', hstage⟩ :=
    distinct_nodes_keep_their_rows.2 [1, 3, -2, 5] [0, 1, 2, 3] 2 hd rfl (by decide)
  obtain rfl := Except.ok.inj (htable.symm.trans htable')
  obtain rfl := pure_inj.mp (hrun.symm.trans hrun')
  exact ⟨hd, rfl, htable, hrun, hstage⟩

end Collocation
