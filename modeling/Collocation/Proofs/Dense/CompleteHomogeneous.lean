import Collocation.Proofs.Dense.Newton
import Mathlib.RingTheory.MvPolynomial.Symmetric.Defs

/-!
# Quotients of powers by node polynomials

The complete homogeneous symmetric polynomial of degree `d` is the sum of all products of `d` of
its variables. A further variable adds the products that it occurs in, so two values of that
variable differ by their difference times the polynomial in both. The same recurrence is
followed by the values of the quotient of a power by the polynomial of the first nodes, when one
more node is divided out.
-/

set_option autoImplicit false

namespace Collocation

variable {α : Type} [CommRing α] {z : ℕ → α}

section Symmetric

open MvPolynomial

theorem hsymm_option_succ (σ : Type) [Fintype σ] [DecidableEq σ] (d : ℕ) :
    hsymm (Option σ) α (d + 1) =
      X none * hsymm (Option σ) α d + rename some (hsymm σ α (d + 1)) := by
  have hwith : ∀ s : Sym (Option σ) d,
      ((symOptionSuccEquiv.symm (Sum.inl s)).1.map X).prod =
        (X none * (s.1.map X).prod : MvPolynomial (Option σ) α) := by
    intro s
    change ((none ::ₘ s.1).map X).prod = _
    rw [Multiset.map_cons, Multiset.prod_cons]
  have hwithout : ∀ s : Sym σ (d + 1),
      ((symOptionSuccEquiv.symm (Sum.inr s)).1.map X).prod =
        (rename some (s.1.map X).prod : MvPolynomial (Option σ) α) := by
    intro s
    change ((s.1.map some).map X).prod = _
    rw [map_multiset_prod, Multiset.map_map, Multiset.map_map]
    simp only [Function.comp_def, rename_X]
  rw [hsymm, ← symOptionSuccEquiv.symm.sum_comp, Fintype.sum_sum_type, hsymm, hsymm,
    Finset.mul_sum, map_sum]
  simp only [hwith, hwithout]

noncomputable def completeHomogeneous (z : ℕ → α) (s : Finset ℕ) (d : ℕ) : α :=
  eval (fun i : s => z i) (hsymm s α d)

@[simp] theorem completeHomogeneous_zero (z : ℕ → α) (s : Finset ℕ) :
    completeHomogeneous z s 0 = 1 := by
  rw [completeHomogeneous, hsymm_zero, map_one]

theorem completeHomogeneous_empty_succ (z : ℕ → α) (d : ℕ) :
    completeHomogeneous z ∅ (d + 1) = 0 := by
  rw [completeHomogeneous, hsymm, Finset.univ_eq_empty_iff.mpr, Finset.sum_empty, map_zero]
  infer_instance

theorem completeHomogeneous_insert {s : Finset ℕ} {a : ℕ} (ha : a ∉ s) (z : ℕ → α) (d : ℕ) :
    completeHomogeneous z (insert a s) d =
      eval (fun o : Option s => o.elim (z a) fun i => z i) (hsymm (Option s) α d) := by
  rw [completeHomogeneous,
    ← rename_hsymm (Option s) α d (Finset.subtypeInsertEquivOption ha).symm, eval_rename]
  congr 2
  funext o
  cases o <;> rfl

theorem completeHomogeneous_insert_succ {s : Finset ℕ} {a : ℕ} (ha : a ∉ s) (z : ℕ → α) (d : ℕ) :
    completeHomogeneous z (insert a s) (d + 1) =
      z a * completeHomogeneous z (insert a s) d + completeHomogeneous z s (d + 1) := by
  rw [completeHomogeneous_insert ha, completeHomogeneous_insert ha, hsymm_option_succ, map_add,
    map_mul, eval_X, eval_rename]
  rfl

theorem completeHomogeneous_singleton (z : ℕ → α) (r d : ℕ) :
    completeHomogeneous z {r} d = z r ^ d := by
  induction d with
  | zero => rw [completeHomogeneous_zero, pow_zero]
  | succ d ih =>
    have hstep := completeHomogeneous_insert_succ (Finset.notMem_empty r) z d
    rw [insert_empty_eq, ih, completeHomogeneous_empty_succ, add_zero] at hstep
    rw [hstep, pow_succ']

/-- Exchanging one variable for another is a difference with one factor more. -/
theorem completeHomogeneous_sub {s : Finset ℕ} {a b : ℕ} (ha : a ∉ s) (hb : b ∉ s) (hab : a ≠ b)
    (z : ℕ → α) (d : ℕ) :
    completeHomogeneous z (insert a s) (d + 1) - completeHomogeneous z (insert b s) (d + 1) =
      (z a - z b) * completeHomogeneous z (insert a (insert b s)) d := by
  have haddA := completeHomogeneous_insert_succ
    (show a ∉ insert b s by simp [ha, hab]) z d
  have haddB := completeHomogeneous_insert_succ
    (show b ∉ insert a s by simp [hb, hab.symm]) z d
  -- Both describe the polynomial with both variables.
  rw [Finset.insert_comm, haddA] at haddB
  rw [sub_mul, sub_eq_sub_iff_add_eq_add, haddB, add_comm]

end Symmetric

section Quotients

open Polynomial

theorem eval_divByMonic_nodal_sub [Nontrivial α] (p : α[X]) (z : ℕ → α) (c : ℕ) (x : α) :
    (p /ₘ nodal z c).eval x - (p /ₘ nodal z c).eval (z c) =
      (x - z c) * (p /ₘ nodal z (c + 1)).eval x := by
  have hsplit := congrArg (eval x) (modByMonic_add_div (p /ₘ nodal z c) (X - C (z c)))
  rw [modByMonic_X_sub_C_eq_C_eval, ← divByMonic_nodal_succ] at hsplit
  simp only [eval_add, eval_mul, eval_sub, eval_X, eval_C] at hsplit
  rw [← hsplit, add_sub_cancel_left]

/-- What is left of a power of a node after the earlier nodes have been divided out. -/
theorem eval_divByMonic_nodal [IsDomain α] {n : ℕ} (hz : Distinct z n) (k : ℕ) {c r : ℕ}
    (hc : c ≤ r) (hr : r < n) :
    ((X ^ k : α[X]) /ₘ nodal z c).eval (z r) =
      if k < c then 0 else completeHomogeneous z (insert r (Finset.range c)) (k - c) := by
  induction c generalizing r with
  | zero =>
    rw [nodal, Finset.range_zero, Lagrange.nodal_empty, divByMonic_one, eval_pow, eval_X,
      if_neg (Nat.not_lt_zero k), insert_empty_eq, completeHomogeneous_singleton, Nat.sub_zero]
  | succ c ih =>
    have hinj := distinct_iff_injOn.mp hz
    have hne : z r - z c ≠ 0 := by
      intro hzero
      have hsame := hinj hr (show c < n by omega) (sub_eq_zero.mp hzero)
      omega
    have hstep := eval_divByMonic_nodal_sub (X ^ k) z c (z r)
    rw [ih (by omega) hr, ih (le_refl c) (by omega)] at hstep
    apply mul_left_cancel₀ hne
    rw [← hstep]
    rcases Nat.lt_trichotomy k c with hk | rfl | hk
    · rw [if_pos hk, if_pos hk, if_pos (by omega), sub_zero, mul_zero]
    · rw [if_neg (lt_irrefl k), if_neg (lt_irrefl k), if_pos (Nat.lt_succ_self k), Nat.sub_self,
        completeHomogeneous_zero, completeHomogeneous_zero, sub_self, mul_zero]
    · rw [if_neg (by omega), if_neg (by omega), if_neg (by omega),
        show k - c = k - (c + 1) + 1 by omega, Finset.range_add_one,
        completeHomogeneous_sub (by simp; omega) (by simp) (by omega)]

end Quotients

end Collocation
