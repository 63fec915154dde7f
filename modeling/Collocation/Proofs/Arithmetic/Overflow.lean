import Collocation.Arithmetic.Machine
import Collocation.Proofs.Arithmetic.Exactness
import Collocation.Proofs.Arithmetic.Recorded
import Mathlib.Tactic.NormNum

/-!
# Overflow of 64-bit integers

A computation with 64-bit integers does what the exact computation does, as long as every step
of the exact one has a result in range. The first step without one traps, and the trap names
its operation. The record of the exact computation thus decides the outcome.
-/

set_option autoImplicit false

namespace Collocation

def InRange (n : ℤ) : Prop := -2 ^ 63 ≤ n ∧ n ≤ 2 ^ 63 - 1

instance (n : ℤ) : Decidable (InRange n) := inferInstanceAs (Decidable (_ ∧ _))

theorem fitsInt64_iff {n : ℤ} : fitsInt64 n ↔ InRange n := by
  rw [fitsInt64, InRange, Int64.toInt_minValue, Int64.toInt_maxValue]

theorem toInt_ofInt_of_inRange {n : ℤ} (h : InRange n) : (Int64.ofInt n).toInt = n :=
  Int64.toInt_ofInt_of_le h.1 (by have := h.2; omega)

theorem inRange_toInt (a : Int64) : InRange a.toInt :=
  ⟨a.le_toInt, by have := a.toInt_lt; omega⟩

def firstOverflow? (steps : List (Step ℤ)) : Option (Step ℤ) :=
  steps.find? fun s => !decide (InRange s.result)

theorem firstOverflow?_append (steps rest : List (Step ℤ)) :
    firstOverflow? (steps ++ rest) = (firstOverflow? steps).or (firstOverflow? rest) :=
  List.find?_append

theorem firstOverflow?_eq_none_iff {steps : List (Step ℤ)} :
    firstOverflow? steps = none ↔ ∀ s ∈ steps, InRange s.result := by
  simp [firstOverflow?]

theorem firstOverflow?_eq_some {steps : List (Step ℤ)} {s : Step ℤ}
    (h : firstOverflow? steps = some s) : ∃ before after, steps = before ++ s :: after ∧
      (∀ r ∈ before, InRange r.result) ∧ ¬ InRange s.result := by
  obtain ⟨hs, before, after, hsteps, hbefore⟩ := List.find?_eq_some_iff_append.mp h
  refine ⟨before, after, hsteps, ?_, by simpa using hs⟩
  intro r hr
  simpa using hbefore r hr

/-- The outcome with 64-bit integers that an exact record decides: the same result, or the
trap of the first overflow. -/
def Recorded.Decides {γ δ : Type} (g : δ → γ) (record : Recorded ℤ γ)
    (machine : Except Trap δ) : Prop :=
  match firstOverflow? record.steps with
  | none => ∃ d, machine = .ok d ∧ record.outcome = .ok (g d)
  | some s => machine = .error (.overflow s.op)

namespace Recorded

variable {γ δ : Type} {g : δ → γ} {record : Recorded ℤ γ} {machine : Except Trap δ}

theorem decides_of_none (h : firstOverflow? record.steps = none) :
    record.Decides g machine ↔ ∃ d, machine = .ok d ∧ record.outcome = .ok (g d) := by
  rw [Decides, h]

theorem decides_of_some {s : Step ℤ} (h : firstOverflow? record.steps = some s) :
    record.Decides g machine ↔ machine = .error (.overflow s.op) := by
  rw [Decides, h]

/-- What is decided so far stays decided: an overflow ends the computation, and without one the
rest of the record decides. -/
theorem Decides.bind {γ' δ' : Type} {g' : δ' → γ'} {k : γ → Recorded ℤ γ'}
    {l : δ → Except Trap δ'} (hx : record.Decides g machine)
    (hk : ∀ d, (k (g d)).Decides g' (l d)) : (record >>= k).Decides g' (machine >>= l) := by
  obtain ⟨steps, outcome⟩ := record
  cases hfirst : firstOverflow? steps with
  | none =>
    obtain ⟨d, rfl, hd⟩ := (decides_of_none hfirst).mp hx
    have hoverflow : firstOverflow? (steps ++ (k (g d)).steps) =
        firstOverflow? (k (g d)).steps := by
      rw [firstOverflow?_append, hfirst, Option.none_or]
    change outcome = .ok (g d) at hd
    rw [hd, ok_bind, Decides, hoverflow]
    exact hk d
  | some s =>
    have htrap : machine = .error (.overflow s.op) := (decides_of_some hfirst).mp hx
    rw [htrap]
    cases outcome with
    | ok c =>
      rw [ok_bind, decides_of_some]
      · rfl
      · rw [firstOverflow?_append, hfirst, Option.some_or]
    | error t =>
      rw [error_bind]
      exact (decides_of_some hfirst).mpr rfl

end Recorded

def overflowing : EffectRelation (Recorded ℤ) (Except Trap) where
  Image := Recorded.Decides
  pure _ d := ⟨d, rfl, rfl⟩
  bind hx hk := hx.bind hk

theorem decides_int64Result (op : Operation) (n : ℤ) :
    (Recorded.perform op (.ok n)).Decides Int64.toInt (int64Result op n) := by
  by_cases h : InRange n
  · have hfirst : firstOverflow? (Recorded.perform op (.ok n)).steps = none := by
      simp [Recorded.perform, firstOverflow?, h]
    rw [Recorded.decides_of_none hfirst, int64Result, if_pos (fitsInt64_iff.mpr h)]
    refine ⟨Int64.ofInt n, rfl, ?_⟩
    rw [toInt_ofInt_of_inRange h]
    rfl
  · have hfirst : firstOverflow? (Recorded.perform op (.ok n)).steps = some ⟨op, n⟩ := by
      simp [Recorded.perform, firstOverflow?, h]
    rw [Recorded.decides_of_some hfirst, int64Result, if_neg (fitsInt64_iff.not.mpr h)]

theorem ne_zero_of_int64_isZero {b : Int64} (hb : int64.isZero b = false) : b ≠ 0 := by
  rintro rfl
  exact absurd hb (by decide)

theorem toInt_ne_zero {b : Int64} (hb : b ≠ 0) : b.toInt ≠ 0 := by
  rw [← Int64.toInt_zero]
  exact fun h => hb (Int64.toInt_inj.mp h)

theorem simulates_int64 : Simulates overflowing Int64.toInt integer.recorded int64 where
  zero_eq := Int64.toInt_zero.symm
  one_eq := Int64.toInt_one.symm
  isZero_eq b := by
    change (b.toInt == 0) = (b == 0)
    rw [Bool.eq_iff_iff, beq_iff_eq, beq_iff_eq, ← Int64.toInt_zero, Int64.toInt_inj]
  add a b := decides_int64Result .add (a.toInt + b.toInt)
  sub a b := decides_int64Result .subtract (a.toInt - b.toInt)
  mul a b := decides_int64Result .multiply (a.toInt * b.toInt)
  div a b hb := by
    have hne := ne_zero_of_int64_isZero hb
    change (Recorded.perform .divide (integer.div a.toInt b.toInt)).Decides Int64.toInt
      (int64.div a b)
    simp only [integer, int64, if_neg hne, if_neg (toInt_ne_zero hne)]
    exact decides_int64Result .divide (a.toInt.tdiv b.toInt)

/-! Subtracting nothing, multiplying by zero or one, and dividing zero or a number by itself have
results that are known beforehand. They are the same for exact numbers and for 64-bit
integers, where in particular they never overflow. -/

namespace Arithmetic

variable {α : Type}

structure HasNeutrals (A : Arithmetic (Except Trap) α) : Prop where
  isZero_iff (a : α) : A.isZero a = true ↔ a = A.zero
  sub_zero (a : α) : A.sub a A.zero = .ok a
  sub_self (a : α) : A.sub a a = .ok A.zero
  mul_zero (a : α) : A.mul a A.zero = .ok A.zero
  zero_mul (a : α) : A.mul A.zero a = .ok A.zero
  mul_one (a : α) : A.mul a A.one = .ok a
  zero_div (b : α) (hb : A.isZero b = false) : A.div A.zero b = .ok A.zero
  div_self (b : α) (hb : A.isZero b = false) : A.div b b = .ok A.one

theorem IsExact.hasNeutrals [CommRing α] {quot : α → α → α} {A : Arithmetic (Except Trap) α}
    (h : A.IsExact quot) : A.HasNeutrals where
  isZero_iff a := by rw [h.isZero_iff, h.zero_eq]
  sub_zero a := by rw [h.zero_eq, h.sub_eq, sub_zero]
  sub_self a := by rw [h.zero_eq, h.sub_eq, sub_self]
  mul_zero a := by rw [h.zero_eq, h.mul_eq, mul_zero]
  zero_mul a := by rw [h.zero_eq, h.mul_eq, zero_mul]
  mul_one a := by rw [h.one_eq, h.mul_eq, mul_one]
  zero_div b hb := by
    have hquot := h.quot_mul 0 b (h.ne_zero hb)
    rw [mul_zero] at hquot
    rw [h.zero_eq, h.div_eq _ _ (h.ne_zero hb), hquot]
  div_self b hb := by
    have hquot := h.quot_mul 1 b (h.ne_zero hb)
    rw [mul_one] at hquot
    rw [h.one_eq, h.div_eq _ _ (h.ne_zero hb), hquot]

end Arithmetic

theorem int64Result_of_eq {op : Operation} {n : ℤ} {a : Int64} (h : n = a.toInt) :
    int64Result op n = .ok a := by
  rw [h, int64Result, if_pos (fitsInt64_iff.mpr (inRange_toInt a)), Int64.ofInt_toInt]

theorem int64_hasNeutrals : int64.HasNeutrals where
  isZero_iff a := beq_iff_eq
  sub_zero a := int64Result_of_eq (sub_zero a.toInt)
  sub_self a := int64Result_of_eq (sub_self a.toInt)
  mul_zero a := int64Result_of_eq (mul_zero a.toInt)
  zero_mul a := int64Result_of_eq (zero_mul a.toInt)
  mul_one a := int64Result_of_eq (mul_one a.toInt)
  zero_div b hb := by
    simp only [int64, if_neg (ne_zero_of_int64_isZero hb)]
    exact int64Result_of_eq (Int.zero_tdiv b.toInt)
  div_self b hb := by
    have hne := ne_zero_of_int64_isZero hb
    simp only [int64, if_neg hne]
    exact int64Result_of_eq (Int.tdiv_self (toInt_ne_zero hne))

end Collocation
