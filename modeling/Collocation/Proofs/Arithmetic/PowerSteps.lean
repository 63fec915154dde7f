import Collocation.Proofs.Arithmetic.Overflow
import Mathlib.Algebra.Order.Ring.Abs

/-!
# The steps of a power

Forming a power takes multiplications only. Every product on the way is itself a power of the
base, and its exponent is never above the one asked for, since no square is formed that the
result would not have as a factor. A power that is a 64-bit integer can therefore be formed
without an overflow, and one that is not is reported as an overflow of a multiplication.
-/

set_option autoImplicit false

namespace Collocation

variable {α : Type}

def Step.IsPower [Monoid α] (b : α) (n : ℕ) (s : Step α) : Prop :=
  s.op = .multiply ∧ ∃ k ≤ n, s.result = b ^ k

theorem Step.IsPower.mono [Monoid α] {b : α} {n n' : ℕ} {s : Step α} (h : s.IsPower b n)
    (hn : n ≤ n') : s.IsPower b n' := by
  obtain ⟨hop, k, hk, hresult⟩ := h
  exact ⟨hop, k, hk.trans hn, hresult⟩

namespace Arithmetic

variable [CommRing α] {quot : α → α → α} {A : Arithmetic (Except Trap) α}

theorem IsExact.recorded_mul (h : A.IsExact quot) (a b : α) :
    A.recorded.mul a b = ⟨[⟨.multiply, a * b⟩], .ok (a * b)⟩ := by
  change Recorded.perform .multiply (A.mul a b) = _
  rw [h.mul_eq]
  rfl

theorem IsExact.forall_steps_mul_bind (h : A.IsExact quot) {γ : Type} {a b : α}
    {k : α → Recorded α γ} {P : Step α → Prop} :
    (∀ s ∈ (A.recorded.mul a b >>= k).steps, P s) ↔
      P ⟨.multiply, a * b⟩ ∧ ∀ s ∈ (k (a * b)).steps, P s := by
  rw [h.recorded_mul, Recorded.ok_bind]
  exact List.forall_mem_cons

/-- The exponents of the accumulator and of the squares together never exceed the exponent of
the result: `i` is what the accumulator has, and half of `e` squares are still to come. -/
theorem IsExact.raise_isPower (h : A.IsExact quot) (b : α) {n i j e : ℕ}
    (hn : i + 2 * j * (e / 2) ≤ n) :
    ∀ s ∈ (A.recorded.raise (b ^ i) (b ^ j) e).steps, s.IsPower b n := by
  induction e using Nat.strong_induction_on generalizing i j with
  | _ e ih =>
    rw [raise]
    by_cases he : e ≤ 1
    · rw [if_pos he, Recorded.pure_eq]
      simp
    have hlt : e / 2 < e := by omega
    have hsquare : 2 * j ≤ 2 * j * (e / 2) := Nat.le_mul_of_pos_right _ (by omega)
    rw [if_neg he, h.forall_steps_mul_bind, ← pow_add]
    refine ⟨⟨rfl, j + j, by omega, rfl⟩, ?_⟩
    -- Whether the bit is set decides if the square goes into the accumulator.
    by_cases hodd : e / 2 % 2 = 1
    · have hhalf : e / 2 = 2 * (e / 2 / 2) + 1 := by omega
      rw [if_pos hodd, h.forall_steps_mul_bind, ← pow_add]
      refine ⟨⟨rfl, i + (j + j), by omega, rfl⟩, ih (e / 2) hlt ?_⟩
      calc i + (j + j) + 2 * (j + j) * (e / 2 / 2) = i + 2 * j * (2 * (e / 2 / 2) + 1) := by ring
        _ ≤ n := by rwa [← hhalf]
    · have hhalf : e / 2 = 2 * (e / 2 / 2) := by omega
      rw [if_neg hodd, pure_bind]
      refine ih (e / 2) hlt ?_
      calc i + 2 * (j + j) * (e / 2 / 2) = i + 2 * j * (2 * (e / 2 / 2)) := by ring
        _ ≤ n := by rwa [← hhalf]

theorem IsExact.power_isPower (h : A.IsExact quot) (b : α) {n j e : ℕ} (hn : j * e ≤ n) :
    ∀ s ∈ (A.recorded.power (b ^ j) e).steps, s.IsPower b n := by
  induction e using Nat.strong_induction_on generalizing j with
  | _ e ih =>
    rw [power]
    by_cases h0 : e = 0
    · rw [if_pos h0, Recorded.pure_eq]
      simp
    rw [if_neg h0]
    by_cases heven : e % 2 = 0
    · have hhalf : e = 2 * (e / 2) := by omega
      have hexp : (j + j) * (e / 2) = j * e := by
        calc (j + j) * (e / 2) = j * (2 * (e / 2)) := by ring
          _ = j * e := by rw [← hhalf]
      have hsquare : j + j ≤ (j + j) * (e / 2) := Nat.le_mul_of_pos_right _ (by omega)
      rw [if_pos heven, h.forall_steps_mul_bind, ← pow_add]
      exact ⟨⟨rfl, j + j, by omega, rfl⟩, ih (e / 2) (by omega) (by omega)⟩
    · have hhalf : e = 2 * (e / 2) + 1 := by omega
      rw [if_neg heven]
      apply h.raise_isPower
      calc j + 2 * j * (e / 2) = j * (2 * (e / 2) + 1) := by ring
        _ ≤ n := by rwa [← hhalf]

/-- Every step of a power is a lower power of the same base, or the power itself. -/
theorem IsExact.steps_power (h : A.IsExact quot) (b : α) (e : ℕ) :
    ∀ s ∈ (A.recorded.power b e).steps, s.IsPower b e := by
  have hsteps := h.power_isPower b (Nat.le_of_eq (Nat.one_mul e))
  rwa [pow_one] at hsteps

end Arithmetic

theorem inRange_of_abs_lt {n : ℤ} (h : |n| < 2 ^ 63) : InRange n := by
  obtain ⟨hlow, hhigh⟩ := abs_lt.mp h
  exact ⟨by omega, by omega⟩

/-- Powers of a base in the range are in the range up to some exponent. A lower power is at most
one or at most half the higher one in absolute value, so that even the smallest integer, whose
absolute value is out of range, has only powers in range below it. -/
theorem inRange_pow_of_le {b : ℤ} {k e : ℕ} (hk : k ≤ e) (h : InRange (b ^ e)) :
    InRange (b ^ k) := by
  have hbound : |b| ^ e ≤ 2 ^ 63 := by
    rw [← abs_pow]
    exact abs_le.mpr ⟨by have := h.1; omega, by have := h.2; omega⟩
  by_cases hsmall : |b| ≤ 1
  · apply inRange_of_abs_lt
    rw [abs_pow]
    have hone : |b| ^ k ≤ 1 := pow_le_one₀ (abs_nonneg b) hsmall
    omega
  rcases Nat.eq_or_lt_of_le hk with rfl | hlt
  · exact h
  · apply inRange_of_abs_lt
    rw [abs_pow]
    have hdouble : |b| ^ k * 2 ≤ 2 ^ 63 := by
      calc |b| ^ k * 2 ≤ |b| ^ k * |b| :=
            mul_le_mul_of_nonneg_left (by omega) (pow_nonneg (abs_nonneg b) k)
        _ = |b| ^ (k + 1) := (pow_succ |b| k).symm
        _ ≤ |b| ^ e := pow_le_pow_right₀ (by omega) hlt
        _ ≤ 2 ^ 63 := hbound
    omega

theorem steps_power_inRange {b : ℤ} {e : ℕ} (h : InRange (b ^ e)) :
    ∀ s ∈ (integer.recorded.power b e).steps, InRange s.result := by
  intro s hs
  obtain ⟨-, k, hk, hresult⟩ := Arithmetic.integer_isExact.steps_power b e s hs
  rw [hresult]
  exact inRange_pow_of_le hk h

theorem outcome_power (b : ℤ) (e : ℕ) : (integer.recorded.power b e).outcome = .ok (b ^ e) := by
  have hforget := integer.simulates_recorded.power b e
  rw [Recorded.outcome_eq_of_forget rfl hforget]
  exact Arithmetic.integer_isExact.power_eq b e

/-- A power of a 64-bit integer behaves like one multiplication with the power as its exact
result, whatever is squared on the way. -/
theorem int64_power_eq (x : Int64) (e : ℕ) :
    int64.power x e = int64Result .multiply (x.toInt ^ e) := by
  have hdecides : (integer.recorded.power x.toInt e).Decides Int64.toInt (int64.power x e) :=
    simulates_int64.power x e
  cases hfirst : firstOverflow? (integer.recorded.power x.toInt e).steps with
  | none =>
    obtain ⟨p, hp, hexact⟩ := (Recorded.decides_of_none hfirst).mp hdecides
    rw [outcome_power] at hexact
    rw [hp, int64Result_of_eq (Except.ok.inj hexact)]
  | some s =>
    obtain ⟨before, after, hsteps, -, hout⟩ := firstOverflow?_eq_some hfirst
    have hs : s ∈ (integer.recorded.power x.toInt e).steps := by
      rw [hsteps]
      simp
    obtain ⟨hop, -⟩ := Arithmetic.integer_isExact.steps_power x.toInt e s hs
    have hrange : ¬ InRange (x.toInt ^ e) := fun h => hout (steps_power_inRange h s hs)
    rw [(Recorded.decides_of_some hfirst).mp hdecides, hop, int64Result,
      if_neg (fitsInt64_iff.not.mpr hrange)]

theorem int64_power_of_inRange {x : Int64} {e : ℕ} (h : InRange (x.toInt ^ e)) :
    int64.power x e = .ok (Int64.ofInt (x.toInt ^ e)) := by
  rw [int64_power_eq, int64Result, if_pos (fitsInt64_iff.mpr h)]

theorem int64_power_of_not_inRange {x : Int64} {e : ℕ} (h : ¬ InRange (x.toInt ^ e)) :
    int64.power x e = .error (.overflow .multiply) := by
  rw [int64_power_eq, int64Result, if_neg (fitsInt64_iff.not.mpr h)]

theorem int64_power_eq_ok {x p : Int64} {e : ℕ} (h : int64.power x e = .ok p) :
    p.toInt = x.toInt ^ e := by
  by_cases hrange : InRange (x.toInt ^ e)
  · rw [int64_power_of_inRange hrange] at h
    rw [← Except.ok.inj h, toInt_ofInt_of_inRange hrange]
  · rw [int64_power_of_not_inRange hrange] at h
    cases h

end Collocation
