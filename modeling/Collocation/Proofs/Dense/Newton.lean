import Mathlib.LinearAlgebra.Lagrange

/-!
# Lagrange and Newton interpolation

Over a field, distinct nodes and as many values belong to exactly one polynomial of degree
below their number. Its value at any point is given by the Lagrange form, which uses neither
coefficients nor linear systems.

The Newton form, with an arbitrary quotient, takes nodes and values one after the other. Each
adds the multiple of the polynomial that vanishes at the earlier nodes which corrects the value
at the new one, as far as the quotient allows. The values of a polynomial leave only exact
quotients: then the result is the remainder modulo the polynomial that vanishes at the nodes.
-/

set_option autoImplicit false

namespace Collocation

open Polynomial

section Lagrange

variable {α : Type}

theorem injOn_getD_iff_nodup [Zero α] (xs : List α) :
    Set.InjOn (xs.getD · 0) (Set.Iio xs.length) ↔ xs.Nodup := by
  rw [List.nodup_iff_injective_get]
  constructor
  · intro h i j hij
    apply Fin.ext
    apply h i.isLt j.isLt
    simpa using hij
  · intro h i hi j hj hij
    have hfin : (⟨i, hi⟩ : Fin xs.length) = ⟨j, hj⟩ := by
      apply h
      simpa [Set.mem_Iio.mp hi, Set.mem_Iio.mp hj] using hij
    exact congrArg Fin.val hfin

variable [Field α] {xs ys : List α}

noncomputable def interpolant (xs ys : List α) : α[X] :=
  Lagrange.interpolate (Finset.range xs.length) (xs.getD · 0) (ys.getD · 0)

def lagrangeValue (xs ys : List α) (t : α) : α :=
  ∑ i ∈ Finset.range xs.length, ys.getD i 0 *
    ∏ j ∈ (Finset.range xs.length).erase i, (t - xs.getD j 0) / (xs.getD i 0 - xs.getD j 0)

theorem injOn_range_of_nodup (hd : xs.Nodup) :
    Set.InjOn (xs.getD · 0) (Finset.range xs.length : Set ℕ) := by
  rw [Finset.coe_range]
  exact (injOn_getD_iff_nodup xs).mpr hd

theorem degree_interpolant_lt (hd : xs.Nodup) (ys : List α) :
    (interpolant xs ys).degree < xs.length := by
  have hlt := Lagrange.degree_interpolate_lt (ys.getD · 0) (injOn_range_of_nodup hd)
  rwa [Finset.card_range] at hlt

theorem map_eval_interpolant (hd : xs.Nodup) (hl : ys.length = xs.length) :
    xs.map (interpolant xs ys).eval = ys := by
  apply List.ext_getElem
  · rw [List.length_map, hl]
  · intro i hi hy
    have hx : i < xs.length := by rwa [List.length_map] at hi
    have hnode := Lagrange.eval_interpolate_at_node (ys.getD · 0) (injOn_range_of_nodup hd)
      (Finset.mem_range.mpr hx)
    simpa [interpolant, hx, hy] using hnode

theorem eq_interpolant (hd : xs.Nodup) {q : α[X]} (hq : q.degree < xs.length)
    (hv : xs.map q.eval = ys) : q = interpolant xs ys := by
  apply Lagrange.eq_interpolate_of_eval_eq _ (injOn_range_of_nodup hd)
  · rwa [Finset.card_range]
  · intro i hi
    have hx : i < xs.length := Finset.mem_range.mp hi
    rw [← hv]
    simp [hx]

theorem eval_interpolant (xs ys : List α) (t : α) :
    (interpolant xs ys).eval t = lagrangeValue xs ys t := by
  rw [interpolant, Lagrange.interpolate_apply, eval_finsetSum, lagrangeValue]
  apply Finset.sum_congr rfl
  intro i _
  rw [eval_mul, eval_C, Lagrange.basis, eval_prod]
  congr 1
  apply Finset.prod_congr rfl
  intro j _
  rw [Lagrange.basisDivisor, eval_mul, eval_C, eval_sub, eval_X, eval_C]
  exact inv_mul_eq_div _ _

end Lagrange

section Newton

variable {α : Type} [CommRing α] {quot : α → α → α} {z v : ℕ → α} {c : ℕ}

noncomputable abbrev nodal (z : ℕ → α) (c : ℕ) : α[X] := Lagrange.nodal (Finset.range c) z

noncomputable def newton (quot : α → α → α) (z v : ℕ → α) : ℕ → α[X]
  | 0 => 0
  | c + 1 => newton quot z v c +
      C (quot (v c - (newton quot z v c).eval (z c)) ((nodal z c).eval (z c))) * nodal z c

theorem nodal_succ (z : ℕ → α) (c : ℕ) : nodal z (c + 1) = nodal z c * (X - C (z c)) := by
  rw [nodal, Lagrange.nodal_eq, Finset.prod_range_succ, ← Lagrange.nodal_eq]

theorem coeff_nodal_self [Nontrivial α] (z : ℕ → α) (c : ℕ) : (nodal z c).coeff c = 1 := by
  have hmonic : (nodal z c).Monic := Lagrange.nodal_monic
  have hcoeff := hmonic.coeff_natDegree
  rwa [Lagrange.natDegree_nodal, Finset.card_range] at hcoeff

theorem degree_nodal [Nontrivial α] (z : ℕ → α) (c : ℕ) : (nodal z c).degree = c := by
  rw [Lagrange.degree_nodal, Finset.card_range]

theorem nodal_congr {z' : ℕ → α} (h : ∀ j < c, z j = z' j) : nodal z c = nodal z' c := by
  rw [nodal, nodal, Lagrange.nodal_eq, Lagrange.nodal_eq]
  apply Finset.prod_congr rfl
  intro j hj
  rw [h j (Finset.mem_range.mp hj)]

def Distinct (z : ℕ → α) (c : ℕ) : Prop := ∀ j < c, (nodal z j).eval (z j) ≠ 0

theorem eval_nodal_eq_zero_iff [IsDomain α] {x : α} :
    (nodal z c).eval x = 0 ↔ ∃ j < c, x = z j := by
  rw [nodal, Lagrange.eval_nodal, Finset.prod_eq_zero_iff]
  simp only [Finset.mem_range, sub_eq_zero]

theorem distinct_iff_injOn [IsDomain α] : Distinct z c ↔ Set.InjOn z (Set.Iio c) := by
  constructor
  · intro h i hi j hj hij
    by_contra hne
    rcases Nat.lt_or_gt_of_ne hne with hlt | hlt
    · exact h j hj (eval_nodal_eq_zero_iff.mpr ⟨i, hlt, hij.symm⟩)
    · exact h i hi (eval_nodal_eq_zero_iff.mpr ⟨j, hlt, hij⟩)
  · intro h j hj hzero
    obtain ⟨i, hij, heq⟩ := eval_nodal_eq_zero_iff.mp hzero
    have hsame := h hj (hij.trans hj) heq
    omega

theorem Distinct.succ (hz : Distinct z c) (hc : (nodal z c).eval (z c) ≠ 0) :
    Distinct z (c + 1) := by
  intro j hj
  rcases Nat.lt_succ_iff_lt_or_eq.mp hj with hlt | rfl
  · exact hz j hlt
  · exact hc

/-- The node that comes into place at position `c` has to differ from those before it. -/
theorem Distinct.comp_swap {p : ℕ} (hz : Distinct z c) (hp : c ≤ p)
    (hne : (nodal z c).eval (z p) ≠ 0) : Distinct (z ∘ Equiv.swap c p) (c + 1) := by
  have hfix : ∀ j < c, (z ∘ Equiv.swap c p) j = z j := by
    intro j hj
    rw [Function.comp, Equiv.swap_apply_of_ne_of_ne (by omega) (by omega)]
  apply Distinct.succ
  · intro j hj
    rw [nodal_congr fun i hi => hfix i (hi.trans hj), hfix j hj]
    exact hz j hj
  · rw [nodal_congr hfix, Function.comp, Equiv.swap_apply_left]
    exact hne

theorem Distinct.of_comp_perm [IsDomain α] {σ : Equiv.Perm ℕ} (hσ : ∀ r, σ r < c ↔ r < c)
    (h : Distinct (z ∘ σ) c) : Distinct z c := by
  have hsymm : ∀ r < c, σ.symm r < c := by
    intro r hr
    rwa [← hσ, Equiv.apply_symm_apply]
  apply distinct_iff_injOn.mpr
  intro i hi j hj hij
  have hsame := distinct_iff_injOn.mp h (hsymm i hi) (hsymm j hj) (by simpa using hij)
  exact σ.symm.injective hsame

theorem newton_congr {z' v' : ℕ → α} (hz : ∀ j < c, z j = z' j) (hv : ∀ j < c, v j = v' j) :
    newton quot z v c = newton quot z' v' c := by
  induction c with
  | zero => rfl
  | succ c ih =>
    have hprev := ih (fun j hj => hz j (by omega)) fun j hj => hv j (by omega)
    rw [newton, newton, hprev, nodal_congr fun j hj => hz j (by omega),
      hz c (Nat.lt_succ_self c), hv c (Nat.lt_succ_self c)]

theorem eval_newton_of_lt (quot : α → α → α) (z v : ℕ → α) {n : ℕ} (h : c < n) :
    (newton quot z v n).eval (z c) = (newton quot z v (c + 1)).eval (z c) := by
  induction n with
  | zero => exact absurd h (Nat.not_lt_zero c)
  | succ n ih =>
    rcases Nat.lt_succ_iff_lt_or_eq.mp h with hlt | rfl
    · have hroot : (nodal z n).eval (z c) = 0 :=
        Lagrange.eval_nodal_at_node (Finset.mem_range.mpr hlt)
      rw [newton, eval_add, eval_mul, hroot, mul_zero, add_zero, ih hlt]
    · rfl

theorem degree_add_nodal_lt [Nontrivial α] {p : α[X]} (hp : p.degree < c) (a : α) (z : ℕ → α) :
    (p + C a * nodal z c).degree < (c + 1 : ℕ) := by
  have hstep : (c : WithBot ℕ) < (c + 1 : ℕ) := by exact_mod_cast Nat.lt_succ_self c
  refine lt_of_le_of_lt (degree_add_le _ _) (max_lt (hp.trans hstep) ?_)
  rw [← smul_eq_C_mul]
  refine lt_of_le_of_lt (degree_smul_le _ _) ?_
  rwa [degree_nodal]

theorem degree_newton_lt (quot : α → α → α) (z v : ℕ → α) (c : ℕ) :
    (newton quot z v c).degree < c := by
  nontriviality α
  induction c with
  | zero => simp [newton]
  | succ c ih => exact degree_add_nodal_lt ih _ z

theorem modByMonic_nodal_self [Nontrivial α] (z : ℕ → α) (c : ℕ) :
    X ^ c %ₘ nodal z c = X ^ c - nodal z c := by
  have hmonic : (nodal z c).Monic := Lagrange.nodal_monic
  refine (div_modByMonic_unique 1 (X ^ c - nodal z c) hmonic ⟨by ring, ?_⟩).2
  have hdeg : (X ^ c : α[X]).degree = (nodal z c).degree := by
    rw [degree_X_pow, degree_nodal]
  have hlead : (X ^ c : α[X]).leadingCoeff = (nodal z c).leadingCoeff := by
    rw [hmonic.leadingCoeff, (monic_X_pow c).leadingCoeff]
  have hlt := degree_sub_lt_left hdeg (monic_X_pow c).ne_zero hlead
  rwa [hdeg] at hlt

/-- Dividing the quotient by one more node splits off the value that corrects the remainder. -/
theorem div_modByMonic_nodal_succ [Nontrivial α] (p : α[X]) (z : ℕ → α) (c : ℕ) :
    p /ₘ nodal z (c + 1) = (p /ₘ nodal z c) /ₘ (X - C (z c)) ∧
      p %ₘ nodal z (c + 1) =
        p %ₘ nodal z c + C ((p /ₘ nodal z c).eval (z c)) * nodal z c := by
  have hmonic : (nodal z (c + 1)).Monic := Lagrange.nodal_monic
  have hsplit := modByMonic_add_div p (nodal z c)
  have hnext := modByMonic_add_div (p /ₘ nodal z c) (X - C (z c))
  rw [modByMonic_X_sub_C_eq_C_eval] at hnext
  apply div_modByMonic_unique _ _ hmonic
  constructor
  · calc
      _ = p %ₘ nodal z c + nodal z c * (C ((p /ₘ nodal z c).eval (z c)) +
            (X - C (z c)) * ((p /ₘ nodal z c) /ₘ (X - C (z c)))) := by
        rw [nodal_succ]
        ring
      _ = p := by rw [hnext, hsplit]
  · have hrem : (p %ₘ nodal z c).degree < c := by
      have hlt := degree_modByMonic_lt p (Lagrange.nodal_monic : (nodal z c).Monic)
      rwa [degree_nodal] at hlt
    rw [degree_nodal]
    exact degree_add_nodal_lt hrem _ z

theorem divByMonic_nodal_succ [Nontrivial α] (p : α[X]) (z : ℕ → α) (c : ℕ) :
    p /ₘ nodal z (c + 1) = (p /ₘ nodal z c) /ₘ (X - C (z c)) :=
  (div_modByMonic_nodal_succ p z c).1

theorem modByMonic_nodal_succ [Nontrivial α] (p : α[X]) (z : ℕ → α) (c : ℕ) :
    p %ₘ nodal z (c + 1) =
      p %ₘ nodal z c + C ((p /ₘ nodal z c).eval (z c)) * nodal z c :=
  (div_modByMonic_nodal_succ p z c).2

/-- No quotient in the interpolation of a polynomial leaves a remainder. -/
theorem newton_eval_eq_modByMonic [Nontrivial α]
    (hq : ∀ a b : α, b ≠ 0 → quot (b * a) b = a) (p : α[X])
    (hz : Distinct z c) :
    newton quot z (fun r => p.eval (z r)) c = p %ₘ nodal z c := by
  induction c with
  | zero => rw [newton, nodal, Finset.range_zero, Lagrange.nodal_empty, modByMonic_one]
  | succ c ih =>
    have hval : p.eval (z c) - (p %ₘ nodal z c).eval (z c) =
        (nodal z c).eval (z c) * (p /ₘ nodal z c).eval (z c) := by
      have heval := congrArg (eval (z c)) (modByMonic_add_div p (nodal z c))
      rw [eval_add, eval_mul] at heval
      rw [← heval, add_sub_cancel_left]
    rw [newton, ih fun j hj => hz j (by omega), hval, hq _ _ (hz c (Nat.lt_succ_self c)),
      modByMonic_nodal_succ]

theorem newton_eval_eq_self [Nontrivial α] (hq : ∀ a b : α, b ≠ 0 → quot (b * a) b = a)
    {p : α[X]} (hp : p.degree < c) (hz : Distinct z c) :
    newton quot z (fun r => p.eval (z r)) c = p := by
  rw [newton_eval_eq_modByMonic hq p hz, modByMonic_eq_self_iff Lagrange.nodal_monic,
    degree_nodal]
  exact hp

end Newton

end Collocation
