import Collocation.Arithmetic.Machine
import Mathlib.Algebra.Field.Rat
import Mathlib.Algebra.Order.Ring.Int
import Mathlib.Tactic.Ring

/-!
# Exact arithmetic

An arithmetic is exact if its operations are those of a commutative ring and only a division
by zero traps. Of the quotient it is known only that it undoes a multiplication. Rational
numbers and truncating integers both satisfy this, so what is derived from it holds for both:
a remainder can be lost only in a division of something that is no multiple of the divisor.
-/

set_option autoImplicit false

namespace Collocation.Arithmetic

variable {α : Type} [CommRing α] {quot : α → α → α} {A : Arithmetic (Except Trap) α}

structure IsExact (A : Arithmetic (Except Trap) α) (quot : α → α → α) : Prop where
  zero_eq : A.zero = 0
  one_eq : A.one = 1
  isZero_iff (a : α) : A.isZero a = true ↔ a = 0
  add_eq (a b : α) : A.add a b = .ok (a + b)
  sub_eq (a b : α) : A.sub a b = .ok (a - b)
  mul_eq (a b : α) : A.mul a b = .ok (a * b)
  div_eq (a b : α) (hb : b ≠ 0) : A.div a b = .ok (quot a b)
  quot_mul (a b : α) (hb : b ≠ 0) : quot (b * a) b = a

theorem rational_isExact : rational.IsExact (· / ·) where
  zero_eq := rfl
  one_eq := rfl
  isZero_iff a := by simp [rational]
  add_eq _ _ := rfl
  sub_eq _ _ := rfl
  mul_eq _ _ := rfl
  div_eq a b hb := by simp [rational, hb]
  quot_mul a b hb := mul_div_cancel_left₀ a hb

theorem integer_isExact : integer.IsExact Int.tdiv where
  zero_eq := rfl
  one_eq := rfl
  isZero_iff a := by simp [integer]
  add_eq _ _ := rfl
  sub_eq _ _ := rfl
  mul_eq _ _ := rfl
  div_eq a b hb := by simp [integer, hb]
  quot_mul a b hb := Int.mul_tdiv_cancel_left a hb

theorem IsExact.ne_zero (h : A.IsExact quot) {b : α} (hb : A.isZero b = false) : b ≠ 0 := by
  intro hzero
  rw [(h.isZero_iff b).mpr hzero] at hb
  cases hb

/-- Each round squares the base and halves the exponent. The accumulator has to make up only
for the bits above the lowest one. -/
theorem IsExact.raise_eq (h : A.IsExact quot) (acc base : α) (e : ℕ) :
    A.raise acc base e = .ok (acc * (base * base) ^ (e / 2)) := by
  induction e using Nat.strong_induction_on generalizing acc base with
  | _ e ih =>
    rw [raise]
    by_cases he : e ≤ 1
    · have h0 : e / 2 = 0 := by omega
      rw [if_pos he, h0, pow_zero, mul_one]
      rfl
    · rw [if_neg he, h.mul_eq]
      have hlt : e / 2 < e := by omega
      have hsplit : e / 2 = e / 2 % 2 + 2 * (e / 2 / 2) := (Nat.mod_add_div _ _).symm
      have hpow : (base * base) ^ (e / 2) =
          (base * base) ^ (e / 2 % 2) * (base * base * (base * base)) ^ (e / 2 / 2) := by
        conv_lhs => rw [hsplit]
        rw [pow_add, pow_mul, pow_two]
      by_cases hodd : e / 2 % 2 = 1
      · simp only [hodd, if_true, h.mul_eq]
        change A.raise (acc * (base * base)) (base * base) (e / 2) = _
        rw [ih _ hlt, hpow, hodd, pow_one, mul_assoc]
      · have heven : e / 2 % 2 = 0 := by omega
        simp only [hodd, if_false]
        change A.raise acc (base * base) (e / 2) = _
        rw [ih _ hlt, hpow, heven, pow_zero, one_mul]

theorem IsExact.power_eq (h : A.IsExact quot) (base : α) (e : ℕ) :
    A.power base e = .ok (base ^ e) := by
  induction e using Nat.strong_induction_on generalizing base with
  | _ e ih =>
    rw [power]
    by_cases h0 : e = 0
    · rw [if_pos h0, h0, pow_zero, h.one_eq]
      rfl
    have hsplit : e = e % 2 + 2 * (e / 2) := (Nat.mod_add_div _ _).symm
    have hpow : base ^ e = base ^ (e % 2) * (base * base) ^ (e / 2) := by
      conv_lhs => rw [hsplit]
      rw [pow_add, pow_mul, pow_two]
    rw [if_neg h0]
    by_cases heven : e % 2 = 0
    · rw [if_pos heven, h.mul_eq]
      change A.power (base * base) (e / 2) = _
      rw [ih _ (by omega), hpow, heven, pow_zero, one_mul]
    · have hodd : e % 2 = 1 := by omega
      rw [if_neg heven, h.raise_eq, hpow, hodd, pow_one]

end Collocation.Arithmetic
