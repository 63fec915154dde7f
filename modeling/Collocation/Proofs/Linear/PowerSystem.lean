import Collocation.Proofs.Dense.Coefficients
import Collocation.Proofs.Dense.Newton
import Collocation.Proofs.Linear.PowerMatrix
import Collocation.Proofs.Linear.RowOperations

/-!
# Elimination of a power matrix

Every column of the system of a power matrix holds values at the nodes: the powers, and last
the right-hand side. After `c` columns of the elimination the rows above `c` hold the Newton
interpolation of these values at the first `c` nodes, coefficient by coefficient, and the other
rows hold what the interpolation leaves of the values at their own nodes. The pivot entries
are the products of node differences. Therefore rows trade places only over repeated nodes,
divisions of the matrix part are exact, and the column that has no pivot counts the nodes.
-/

set_option autoImplicit false

namespace Collocation

open Polynomial

variable {α : Type} [CommRing α] {quot : α → α → α} {z v w : ℕ → α} {n c p : ℕ}
  {f g : ℕ → ℕ → α}

noncomputable def stage (quot : α → α → α) (z v : ℕ → α) (c r : ℕ) : α :=
  if r < c then (newton quot z v c).coeff r else v r - (newton quot z v c).eval (z r)

def columnValues (n : ℕ) (z w : ℕ → α) (k r : ℕ) : α := if k < n then z r ^ k else w r

def Staged (quot : α → α → α) (n : ℕ) (z w : ℕ → α) (c : ℕ) (g : ℕ → ℕ → α) : Prop :=
  ∀ r < n, ∀ k ≤ n, g r k = stage quot z (columnValues n z w k) c r

theorem columnValues_of_lt {k : ℕ} (hk : k < n) (z w : ℕ → α) :
    columnValues n z w k = fun r => (X ^ k : α[X]).eval (z r) := by
  funext r
  rw [columnValues, if_pos hk, eval_pow, eval_X]

@[simp] theorem columnValues_self (n : ℕ) (z w : ℕ → α) : columnValues n z w n = w := by
  funext r
  rw [columnValues, if_neg (lt_irrefl n)]

@[simp] theorem stage_zero (quot : α → α → α) (z v : ℕ → α) (r : ℕ) : stage quot z v 0 r = v r := by
  simp [stage, newton]

section Columns

variable [Nontrivial α]

theorem stage_power_of_lt (hq : ∀ a b : α, b ≠ 0 → quot (b * a) b = a) (hz : Distinct z c)
    {k : ℕ} (hk : k < c) (r : ℕ) :
    stage quot z (fun r => (X ^ k : α[X]).eval (z r)) c r = if r = k then 1 else 0 := by
  have hdeg : (X ^ k : α[X]).degree < c := by
    rw [degree_X_pow]
    exact_mod_cast hk
  rw [stage, newton_eval_eq_self hq hdeg hz]
  by_cases hr : r < c
  · rw [if_pos hr, coeff_X_pow]
  · rw [if_neg hr, sub_self, if_neg (by omega)]

theorem stage_power_self (hq : ∀ a b : α, b ≠ 0 → quot (b * a) b = a) (hz : Distinct z c)
    (r : ℕ) : stage quot z (fun r => (X ^ c : α[X]).eval (z r)) c r =
      if r < c then -(nodal z c).coeff r else (nodal z c).eval (z r) := by
  rw [stage, newton_eval_eq_modByMonic hq _ hz, modByMonic_nodal_self]
  by_cases hr : r < c
  · rw [if_pos hr, if_pos hr, coeff_sub, coeff_X_pow, if_neg (by omega), zero_sub]
  · rw [if_neg hr, if_neg hr, eval_sub, sub_sub_cancel]

/-- One column adds one term to the Newton interpolation, in all rows at once. -/
theorem stage_succ (hq : ∀ a b : α, b ≠ 0 → quot (b * a) b = a) (hz : Distinct z c)
    (v : ℕ → α) (r : ℕ) :
    stage quot z v (c + 1) r =
      if r = c then quot (stage quot z v c c) ((nodal z c).eval (z c))
      else stage quot z v c r - stage quot z (fun r => (X ^ c : α[X]).eval (z r)) c r *
        quot (stage quot z v c c) ((nodal z c).eval (z c)) := by
  have hself : stage quot z v c c = v c - (newton quot z v c).eval (z c) := by
    rw [stage, if_neg (lt_irrefl c)]
  rw [stage_power_self hq hz, hself, stage, stage, newton]
  rcases Nat.lt_trichotomy r c with hr | rfl | hr
  · rw [if_pos (by omega), if_neg (by omega), if_pos hr, if_pos hr, coeff_add, coeff_C_mul]
    ring
  · have hcoeff : (newton quot z v r).coeff r = 0 :=
      coeff_eq_zero_of_degree_lt (degree_newton_lt quot z v r)
    rw [if_pos (by omega), if_pos rfl, coeff_add, coeff_C_mul, coeff_nodal_self, hcoeff]
    ring
  · rw [if_neg (by omega), if_neg (by omega), if_neg (by omega), if_neg (by omega), eval_add,
      eval_mul, eval_C]
    ring

theorem Staged.eq_one_or_zero (h : Staged quot n z w c g)
    (hq : ∀ a b : α, b ≠ 0 → quot (b * a) b = a) (hz : Distinct z c) {r k : ℕ} (hr : r < n)
    (hk : k < c) (hkn : k < n) : g r k = if r = k then 1 else 0 := by
  rw [h r hr k hkn.le, columnValues_of_lt hkn, stage_power_of_lt hq hz hk]

theorem Staged.entry_self (h : Staged quot n z w c g)
    (hq : ∀ a b : α, b ≠ 0 → quot (b * a) b = a) (hz : Distinct z c) {r : ℕ} (hr : r < n)
    (hcr : c ≤ r) : g r c = (nodal z c).eval (z r) := by
  have hcn : c < n := lt_of_le_of_lt hcr hr
  rw [h r hr c hcn.le, columnValues_of_lt hcn, stage_power_self hq hz, if_neg (by omega)]

theorem Staged.diagonal_ne_zero (h : Staged quot n z w c g)
    (hq : ∀ a b : α, b ≠ 0 → quot (b * a) b = a) (hz : Distinct z n) (hc : c < n) :
    g c c ≠ 0 := by
  rw [h.entry_self hq (fun j hj => hz j (hj.trans hc)) hc (le_refl c)]
  exact hz c hc

theorem Staged.cleared (h : Staged quot n z w c g)
    (hq : ∀ a b : α, b ≠ 0 → quot (b * a) b = a) (hc : c < n) (hz : Distinct z (c + 1)) :
    Staged quot n z w (c + 1) (cleared quot g c) := by
  have hzc : Distinct z c := fun j hj => hz j (by omega)
  intro r hr k hk
  rw [Collocation.cleared]
  by_cases hkc : k < c
  · rw [if_pos hkc, h.eq_one_or_zero hq hzc hr hkc (by omega),
      columnValues_of_lt (by omega), stage_power_of_lt hq hz (by omega)]
  · have hpivot := h.entry_self hq hzc hc (le_refl c)
    have hfactor : g r c = stage quot z (fun r => (X ^ c : α[X]).eval (z r)) c r := by
      rw [h r hr c hc.le, columnValues_of_lt hc]
    rw [if_neg hkc, stage_succ hq hzc, hpivot, hfactor, h r hr k hk, h c hc k hk]

end Columns

theorem stage_swap (hp : c ≤ p) (quot : α → α → α) (z v : ℕ → α) (r : ℕ) :
    stage quot (z ∘ Equiv.swap c p) (v ∘ Equiv.swap c p) c r =
      stage quot z v c (Equiv.swap c p r) := by
  have hfix : ∀ j < c, Equiv.swap c p j = j := fun j hj =>
    (swap_eq_iff_of_lt hj hp j).mpr rfl
  have hnewton : newton quot (z ∘ Equiv.swap c p) (v ∘ Equiv.swap c p) c = newton quot z v c :=
    newton_congr (fun j hj => by rw [Function.comp, hfix j hj])
      fun j hj => by rw [Function.comp, hfix j hj]
  rw [stage, stage, hnewton]
  by_cases hr : r < c
  · rw [hfix r hr]
    simp [hr]
  · have hnot : ¬ Equiv.swap c p r < c := by
      rw [Equiv.swap_apply_def]
      split_ifs <;> omega
    rw [if_neg hr, if_neg hnot]
    rfl

theorem Staged.exchanged (h : Staged quot n z w c g) (hc : c < n) (hle : c ≤ p) (hp : p < n) :
    Staged quot n (z ∘ Equiv.swap c p) (w ∘ Equiv.swap c p) c (exchanged g c p) := by
  intro r hr k hk
  have hcolumn : columnValues n (z ∘ Equiv.swap c p) (w ∘ Equiv.swap c p) k =
      columnValues n z w k ∘ Equiv.swap c p := by
    funext s
    rfl
  rw [Collocation.exchanged, h _ (swap_lt hc hp hr) k hk, hcolumn, stage_swap hle]

section Runs

variable [IsDomain α]

/-- Every table of a run is the stage of some order of the rows, and the nodes of the rows
that have been pivots are distinct. -/
theorem Reaches.staged (hq : ∀ a b : α, b ≠ 0 → quot (b * a) b = a)
    (hf : Staged quot n z w 0 f) (h : Reaches quot n f c g) :
    ∃ σ : Equiv.Perm ℕ, (∀ r, σ r < n ↔ r < n) ∧ Distinct (z ∘ σ) c ∧
      Staged quot n (z ∘ σ) (w ∘ σ) c g := by
  induction h with
  | start => exact ⟨1, fun r => Iff.rfl, fun j hj => absurd hj (Nat.not_lt_zero j), hf⟩
  | @column c p g _ pivot ih =>
    obtain ⟨σ, hσ, hz, hg⟩ := ih
    have hcn : c < n := lt_of_le_of_lt pivot.le pivot.lt
    have hne := pivot.ne_zero
    rw [hg.entry_self hq hz pivot.lt pivot.le] at hne
    have hz' := hz.comp_swap pivot.le hne
    -- The exchange of this column comes on top of the order found so far.
    refine ⟨σ * Equiv.swap c p, fun r => (hσ _).trans (swap_lt_iff hcn pivot.lt r), hz', ?_⟩
    exact (hg.exchanged hcn pivot.le pivot.lt).cleared hq hcn hz'

/-- Over distinct nodes the diagonal entry is never zero, so no rows trade places. -/
theorem Reaches.staged_of_distinct (hq : ∀ a b : α, b ≠ 0 → quot (b * a) b = a)
    (hz : Distinct z n) (hf : Staged quot n z w 0 f) (h : Reaches quot n f c g) :
    Staged quot n z w c g := by
  induction h with
  | start => exact hf
  | @column c p g _ pivot ih =>
    have hcn : c < n := lt_of_le_of_lt pivot.le pivot.lt
    have hp : c = p := by
      by_contra hne
      exact ih.diagonal_ne_zero hq hz hcn
        (pivot.eq_zero c (le_refl c) (lt_of_le_of_ne pivot.le hne))
    rw [← hp, exchanged_self]
    exact ih.cleared hq hcn fun j hj => hz j (by omega)

theorem card_nodes_of_no_pivot [DecidableEq α] (hq : ∀ a b : α, b ≠ 0 → quot (b * a) b = a)
    {σ : Equiv.Perm ℕ} (hσ : ∀ r, σ r < n ↔ r < n) (hc : c < n) (hz : Distinct (z ∘ σ) c)
    (hg : Staged quot n (z ∘ σ) (w ∘ σ) c g) (hzero : ∀ r, c ≤ r → r < n → g r c = 0) :
    ((Finset.range n).image z).card = c := by
  have himage : (Finset.range n).image z = (Finset.range c).image (z ∘ σ) := by
    ext x
    simp only [Finset.mem_image, Finset.mem_range]
    constructor
    · rintro ⟨r, hr, rfl⟩
      have hs : σ.symm r < n := by
        rw [← hσ, Equiv.apply_symm_apply]
        exact hr
      by_cases hsc : σ.symm r < c
      · exact ⟨_, hsc, by simp⟩
      · have hroot := hzero _ (not_lt.mp hsc) hs
        rw [hg.entry_self hq hz hs (not_lt.mp hsc)] at hroot
        obtain ⟨j, hj, heq⟩ := eval_nodal_eq_zero_iff.mp hroot
        exact ⟨j, hj, by simpa using heq.symm⟩
    · rintro ⟨j, hj, rfl⟩
      exact ⟨σ j, (hσ j).mpr (hj.trans hc), rfl⟩
  have hinj : Set.InjOn (z ∘ σ) (Finset.range c) := by
    rw [Finset.coe_range]
    exact distinct_iff_injOn.mp hz
  rw [himage, Finset.card_image_of_injOn hinj, Finset.card_range]

end Runs

theorem distinct_getD_iff_nodup [IsDomain α] (xs : List α) :
    Distinct (xs.getD · 0) xs.length ↔ xs.Nodup :=
  distinct_iff_injOn.trans (injOn_getD_iff_nodup xs)

theorem image_getD_eq_toFinset [DecidableEq α] (xs : List α) :
    (Finset.range xs.length).image (xs.getD · 0) = xs.toFinset := by
  ext x
  simp only [Finset.mem_image, Finset.mem_range, List.mem_toFinset, List.mem_iff_getElem]
  constructor
  · rintro ⟨r, hr, rfl⟩
    exact ⟨r, hr, by simp [hr]⟩
  · rintro ⟨r, hr, rfl⟩
    exact ⟨r, hr, by simp [hr]⟩

theorem staged_powerMatrix (quot : α → α → α) (xs ys : List α) :
    Staged quot xs.length (xs.getD · 0) (ys.getD · 0) 0
      (augmentedEntry (powerMatrix xs).toRows ys xs.length) := by
  intro r hr k _
  rw [stage_zero, augmentedEntry_powerMatrix ys hr]
  rfl

namespace Arithmetic

variable [IsDomain α] {A : Arithmetic (Except Trap) α} {xs ys : List α}

/-- Distinct nodes always have a solution: the coefficients of the Newton interpolation. -/
theorem IsExact.solveNodes_of_nodup (h : A.IsExact quot) (hd : xs.Nodup)
    (hl : ys.length = xs.length) :
    A.solveNodes xs ys = pure (coefficientsBelow xs.length
      (newton quot (xs.getD · 0) (ys.getD · 0) xs.length)) := by
  have hz := (distinct_getD_iff_nodup xs).mpr hd
  have hf := staged_powerMatrix quot xs ys
  rw [h.solveNodes_eq]
  rcases h.solve_cases (powerMatrix xs) hl with ⟨g, hg, hrun⟩ | ⟨k, hk, g, hg, hzero, -⟩
  · have hstage : Staged quot xs.length (xs.getD · 0) (ys.getD · 0) xs.length g :=
      hg.staged_of_distinct h.quot_mul hz hf
    rw [hrun, pure_inj]
    apply List.map_congr_left
    intro r hr
    have hrn : r < xs.length := List.mem_range.mp hr
    have hentry := hstage r hrn xs.length (le_refl _)
    rwa [columnValues_self, stage, if_pos hrn] at hentry
  · have hstage := hg.staged_of_distinct h.quot_mul hz hf
    exact absurd (hzero k (le_refl k) hk) (hstage.diagonal_ne_zero h.quot_mul hz hk)

theorem IsExact.solveNodes_eval (h : A.IsExact quot) (hd : xs.Nodup) {q : α[X]}
    (hq : q.degree < xs.length) :
    A.solveNodes xs (xs.map q.eval) = pure (coefficientsBelow xs.length q) := by
  have hz := (distinct_getD_iff_nodup xs).mpr hd
  have hvalues : ∀ j < xs.length, (xs.map q.eval).getD j 0 = q.eval (xs.getD j 0) := by
    intro j hj
    simp [hj]
  rw [h.solveNodes_of_nodup hd (List.length_map _), newton_congr (fun _ _ => rfl) hvalues,
    newton_eval_eq_self h.quot_mul hq hz]

theorem IsExact.solveNodes_evaluate (h : A.IsExact quot) (hd : xs.Nodup) {cs : List α}
    (hcs : cs.length = xs.length) : (do
      let vs ← A.evaluate xs cs
      A.solveNodes xs vs : ExceptT Rejection (Except Trap) (List α)) = pure cs := by
  have hdeg : (polynomialOf cs).degree < xs.length := by
    rw [← hcs]
    exact degree_polynomialOf_lt cs
  rw [h.evaluate_eq]
  change A.solveNodes xs (xs.map (polynomialOf cs).eval) = pure cs
  rw [h.solveNodes_eval hd hdeg, ← hcs, coefficientsBelow_polynomialOf]

/-- Repeated nodes are found out by the column whose number is that of the distinct nodes. -/
theorem IsExact.solveNodes_of_not_nodup [DecidableEq α] (h : A.IsExact quot)
    (hd : ¬ xs.Nodup) (hl : ys.length = xs.length) :
    A.solveNodes xs ys = throw (.singular xs.toFinset.card) := by
  have hf := staged_powerMatrix quot xs ys
  rw [h.solveNodes_eq]
  rcases h.solve_cases (powerMatrix xs) hl with ⟨g, hg, -⟩ | ⟨k, hk, g, hg, hzero, hrun⟩
  · obtain ⟨σ, hσ, hz, -⟩ := hg.staged h.quot_mul hf
    exact absurd ((distinct_getD_iff_nodup xs).mp (hz.of_comp_perm hσ)) hd
  · obtain ⟨σ, hσ, hz, hstage⟩ := hg.staged h.quot_mul hf
    have hcard := card_nodes_of_no_pivot h.quot_mul hσ hk hz hstage hzero
    rw [hrun, ← image_getD_eq_toFinset, hcard]

end Arithmetic

theorem solveNodes_rational {xs ys : List ℚ} (hd : xs.Nodup) (hl : ys.length = xs.length) :
    rational.solveNodes xs ys = pure (coefficientsBelow xs.length (interpolant xs ys)) := by
  have hsolve := Arithmetic.rational_isExact.solveNodes_eval hd (degree_interpolant_lt hd ys)
  rwa [map_eval_interpolant hd hl] at hsolve

theorem polynomialOf_interpolant {xs : List ℚ} (hd : xs.Nodup) (ys : List ℚ) :
    polynomialOf (coefficientsBelow xs.length (interpolant xs ys)) = interpolant xs ys :=
  polynomialOf_coefficientsBelow (degree_interpolant_lt hd ys)

end Collocation
