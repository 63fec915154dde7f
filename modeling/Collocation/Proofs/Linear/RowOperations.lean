import Collocation.Proofs.Linear.Elimination
import Mathlib.Algebra.BigOperators.Field
import Mathlib.Algebra.BigOperators.Intervals

/-!
# What elimination does to rows

The columns that an elimination has finished are unit vectors, for every exact arithmetic. Over
a field a step is reversible and keeps the vectors that all rows annihilate. At a column
without a pivot such a vector can be read off: the column depends on the columns before it.
-/

set_option autoImplicit false

namespace Collocation

variable {α : Type}

theorem swap_lt {n c p r : ℕ} (hc : c < n) (hp : p < n) (hr : r < n) : Equiv.swap c p r < n := by
  rw [Equiv.swap_apply_def]
  split_ifs <;> assumption

theorem swap_lt_iff {n c p : ℕ} (hc : c < n) (hp : p < n) (r : ℕ) :
    Equiv.swap c p r < n ↔ r < n := by
  constructor
  · intro hr
    have hback := swap_lt hc hp hr
    rwa [Equiv.swap_apply_self] at hback
  · exact swap_lt hc hp

theorem swap_eq_iff_of_lt {c p k : ℕ} (hk : k < c) (hp : c ≤ p) (r : ℕ) :
    Equiv.swap c p r = k ↔ r = k := by
  rw [Equiv.swap_apply_eq_iff, Equiv.swap_apply_of_ne_of_ne (by omega) (by omega)]

def UnitColumns [Zero α] [One α] (n : ℕ) (f : ℕ → ℕ → α) (c : ℕ) : Prop :=
  ∀ r < n, ∀ k < c, f r k = if r = k then 1 else 0

theorem Reaches.unitColumns [Ring α] {quot : α → α → α} (hq : ∀ a, a ≠ 0 → quot a a = 1)
    {n c : ℕ} {f g : ℕ → ℕ → α} (h : Reaches quot n f c g) : UnitColumns n g c := by
  induction h with
  | start =>
    intro r _ k hk
    exact absurd hk (Nat.not_lt_zero k)
  | @column c p g _ pivot ih =>
    have hcn : c < n := lt_of_le_of_lt pivot.le pivot.lt
    intro r hr k hk
    rcases Nat.lt_succ_iff_lt_or_eq.mp hk with hkc | rfl
    · have hrow := ih _ (swap_lt hcn pivot.lt hr) k hkc
      simp only [swap_eq_iff_of_lt hkc pivot.le] at hrow
      rw [cleared, if_pos hkc]
      exact hrow
    · have hone : quot (exchanged g k p k k) (exchanged g k p k k) = 1 := by
        apply hq
        simpa [exchanged] using pivot.ne_zero
      rw [cleared, if_neg (lt_irrefl k), hone]
      by_cases hrk : r = k
      · rw [if_pos hrk, if_pos hrk]
      · rw [if_neg hrk, if_neg hrk, mul_one, sub_self]

/-- Finished columns pick one entry out of a vector, or none for a row below them. -/
theorem UnitColumns.sum_eq [Semiring α] {n c r : ℕ} {f : ℕ → ℕ → α} (h : UnitColumns n f c)
    (hr : r < n) (w : ℕ → α) :
    ∑ k ∈ Finset.range c, f r k * w k = if r < c then w r else 0 := by
  have hterm : ∀ k ∈ Finset.range c, f r k * w k = if r = k then w r else 0 := by
    intro k hk
    rw [h r hr k (Finset.mem_range.mp hk)]
    by_cases hrk : r = k <;> simp [hrk]
  rw [Finset.sum_congr rfl hterm, Finset.sum_ite_eq]
  simp only [Finset.mem_range]

def Annihilates [Semiring α] (n m : ℕ) (f : ℕ → ℕ → α) (w : ℕ → α) : Prop :=
  ∀ r < n, ∑ k ∈ Finset.range m, f r k * w k = 0

theorem annihilates_exchanged [Semiring α] {n m c p : ℕ} (hc : c < n) (hp : p < n)
    (f : ℕ → ℕ → α) (w : ℕ → α) :
    Annihilates n m (exchanged f c p) w ↔ Annihilates n m f w := by
  constructor
  · intro h r hr
    have hrow := h _ (swap_lt hc hp hr)
    rwa [exchanged, Equiv.swap_apply_self] at hrow
  · intro h r hr
    exact h _ (swap_lt hc hp hr)

section Field

variable [Field α] {n m c : ℕ} {f g : ℕ → ℕ → α}

theorem cleared_eq (hz : ∀ k < c, f c k = 0) (r k : ℕ) :
    cleared (· / ·) f c r k =
      if r = c then f c k / f c c else f r k - f r c * (f c k / f c c) := by
  rw [cleared]
  by_cases hk : k < c
  · by_cases hr : r = c <;> simp [hk, hr, hz k hk]
  · rw [if_neg hk]

theorem annihilates_cleared (hc : c < n) (hz : ∀ k < c, f c k = 0) (hne : f c c ≠ 0)
    (w : ℕ → α) : Annihilates n m (cleared (· / ·) f c) w ↔ Annihilates n m f w := by
  have hpivot : ∑ k ∈ Finset.range m, cleared (· / ·) f c c k * w k =
      (∑ k ∈ Finset.range m, f c k * w k) / f c c := by
    rw [Finset.sum_div]
    apply Finset.sum_congr rfl
    intro k _
    rw [cleared_eq hz, if_pos rfl]
    ring
  have hother : ∀ r, r ≠ c → ∑ k ∈ Finset.range m, cleared (· / ·) f c r k * w k =
      ∑ k ∈ Finset.range m, f r k * w k -
        f r c * ((∑ k ∈ Finset.range m, f c k * w k) / f c c) := by
    intro r hr
    rw [Finset.sum_div, Finset.mul_sum, ← Finset.sum_sub_distrib]
    apply Finset.sum_congr rfl
    intro k _
    rw [cleared_eq hz, if_neg hr]
    ring
  constructor
  · intro h
    have hrow : ∑ k ∈ Finset.range m, f c k * w k = 0 := by
      have hdiv := h c hc
      rw [hpivot] at hdiv
      exact (div_eq_zero_iff.mp hdiv).resolve_right hne
    intro r hr
    by_cases hrc : r = c
    · rw [hrc]
      exact hrow
    · have hsum := h r hr
      rwa [hother r hrc, hrow, zero_div, mul_zero, sub_zero] at hsum
  · intro h r hr
    by_cases hrc : r = c
    · rw [hrc, hpivot, h c hc, zero_div]
    · rw [hother r hrc, h r hr, h c hc, zero_div, mul_zero, sub_zero]

/-- No column step gains or loses a solution of the rows. -/
theorem Reaches.annihilates_iff (h : Reaches (· / ·) n f c g) (w : ℕ → α) :
    Annihilates n m g w ↔ Annihilates n m f w := by
  induction h with
  | start => rfl
  | @column c p g before pivot ih =>
    have hcn : c < n := lt_of_le_of_lt pivot.le pivot.lt
    have hunit := before.unitColumns fun a ha => div_self ha
    have hz : ∀ k < c, exchanged g c p c k = 0 := by
      intro k hk
      have hrow := hunit p pivot.lt k hk
      rw [if_neg (by have := pivot.le; omega)] at hrow
      rwa [exchanged, Equiv.swap_apply_left]
    have hne : exchanged g c p c c ≠ 0 := by
      rw [exchanged, Equiv.swap_apply_left]
      exact pivot.ne_zero
    rw [annihilates_cleared hcn hz hne, annihilates_exchanged hcn pivot.lt, ih]

end Field

def dependency [Ring α] (g : ℕ → ℕ → α) (c k : ℕ) : α :=
  if k < c then -g k c else if k = c then 1 else 0

theorem annihilates_dependency [Ring α] {n m c : ℕ} {g : ℕ → ℕ → α} (hm : c < m)
    (hu : UnitColumns n g c) (hz : ∀ r, c ≤ r → r < n → g r c = 0) :
    Annihilates n m g (dependency g c) := by
  intro r hr
  have habove : ∀ k ∈ Finset.range m, k ∉ Finset.range (c + 1) →
      g r k * dependency g c k = 0 := by
    intro k _ hk
    have hck : c < k := by simpa using hk
    simp [dependency, show ¬ k < c by omega, show k ≠ c by omega]
  rw [← Finset.sum_subset (Finset.range_subset_range.mpr hm) habove, Finset.sum_range_succ,
    hu.sum_eq hr]
  by_cases hrc : r < c
  · simp [hrc, dependency]
  · simp [hrc, dependency, hz r (by omega) hr]

end Collocation
