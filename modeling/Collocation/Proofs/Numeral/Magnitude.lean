import Collocation.Proofs.Arithmetic.PowerSteps
import Collocation.Proofs.Numeral.Coordinate

/-!
# How large a coordinate can be

Digits take room in the text, so the integers of a fraction are bounded by the length of the
text. The exponent of a decimal does not: a few characters can ask for any power of ten. Such a
power is formed only up to the limit on exponents, moved by the digits after the point, and this
bounds the numerator and the denominator of every coordinate that is read.
-/

set_option autoImplicit false

namespace Collocation

open Text Numeral

theorem length_toList_le_utf8ByteSize (s : String) : s.toList.length ≤ s.utf8ByteSize := by
  have hlist : ∀ cs : List Char, cs.length ≤ (String.ofList cs).utf8ByteSize := by
    intro cs
    induction cs with
    | nil => exact Nat.zero_le _
    | cons c cs ih =>
      have hc := c.utf8Size_pos
      rw [← List.singleton_append, String.ofList_append, String.utf8ByteSize_append,
        List.length_append, List.length_singleton]
      change 1 + cs.length ≤ (String.singleton c).utf8ByteSize + _
      rw [String.utf8ByteSize_singleton]
      omega
  have h := hlist s.toList
  rwa [String.ofList_toList] at h

theorem recorded_power_bind_pure {γ : Type} (b : ℤ) (e : ℕ) (k : ℤ → γ) :
    (do let p ← integer.recorded.power b e
        pure (k p)) = (⟨(integer.recorded.power b e).steps, .ok (k (b ^ e))⟩ : Recorded ℤ γ) := by
  have hout := outcome_power b e
  cases hp : integer.recorded.power b e with
  | mk steps outcome =>
    rw [hp] at hout
    obtain rfl : outcome = .ok (b ^ e) := hout
    rw [Recorded.ok_bind, Recorded.pure_eq, List.append_nil]

theorem Text.IsTrim.length_le {cs t : List Char} (h : IsTrim cs t) : t.length ≤ cs.length := by
  rw [← trim_eq_iff.mpr h]
  exact length_trim_le cs

namespace Numeral

theorem digitValue_lt {c : Char} (h : '0' ≤ c ∧ c ≤ '9') : digitValue c < 10 := by
  have hle : c.toNat ≤ '9'.toNat := UInt32.le_iff_toNat_le.mp h.2
  have hnine : '9'.toNat = 57 := rfl
  have hzero : '0'.toNat = 48 := rfl
  rw [digitValue]
  omega

theorem number_lt {ds : List Char} (h : IsDigits ds) : number ds < 10 ^ ds.length := by
  have hlt : ∀ n ∈ ds.reverse.map digitValue, n < 10 := by
    intro n hn
    obtain ⟨c, hc, rfl⟩ := List.mem_map.mp hn
    exact digitValue_lt (h c (List.mem_reverse.mp hc))
  have hbound := Nat.ofDigits_lt_base_pow_length (by decide) hlt
  rwa [List.length_map, List.length_reverse] at hbound

theorem natAbs_signFactor_mul (negative : Bool) (n : ℕ) :
    (signFactor negative * n).natAbs = n := by
  cases negative <;> simp [signFactor]

theorem SignedInteger.natAbs_lt {cs : List Char} {n : ℤ} (h : SignedInteger cs n) :
    n.natAbs < 10 ^ cs.length := by
  obtain ⟨sign, negative, ds, rfl, -, hd, -, rfl⟩ := h
  rw [natAbs_signFactor_mul]
  refine lt_of_lt_of_le (number_lt hd) (Nat.pow_le_pow_right (by decide) ?_)
  rw [List.length_append]
  exact Nat.le_add_left _ _

theorem WrittenFraction.natAbs_lt {cs : List Char} {n d : ℤ} (h : WrittenFraction cs n d) :
    n.natAbs < 10 ^ cs.length ∧ d.natAbs < 10 ^ cs.length := by
  obtain ⟨A, B, a, b, rfl, hA, hB, ha, hb⟩ := h
  have hlen : (A ++ '/' :: B).length = A.length + (B.length + 1) := by simp
  have hal := hA.length_le
  have hbl := hB.length_le
  constructor
  · exact lt_of_lt_of_le ha.natAbs_lt (Nat.pow_le_pow_right (by decide) (by omega))
  · exact lt_of_lt_of_le hb.natAbs_lt (Nat.pow_le_pow_right (by decide) (by omega))

theorem Mantissa.length_le {m I F : List Char} (h : Mantissa m I F) :
    (I ++ F).length ≤ m.length := by
  cases h with
  | whole _ _ => simp
  | pointed _ _ _ => simp
  | fraction _ _ => simp

theorem WrittenDecimal.isDigits {cs : List Char} {d : Decimal} (h : WrittenDecimal cs d) :
    IsDigits d.digits := by
  obtain ⟨_, _, _, -, -, hm, -⟩ := h
  exact hm.isDigits

theorem WrittenDecimal.length_le {cs : List Char} {d : Decimal} (h : WrittenDecimal cs d) :
    d.digits.length ≤ cs.length := by
  obtain ⟨sign, m, x, rfl, -, hm, -⟩ := h
  have hle : d.digits.length ≤ m.length := hm.length_le
  rw [List.length_append, List.length_append]
  omega

namespace Decimal

variable {m : Type → Type} [Monad m] {d : Decimal} {E : ℕ}

def ratioBy (tenTo : ℕ → m ℤ) (d : Decimal) : m (ℤ × ℤ) :=
  if d.isZero then pure (0, 1)
  else if 0 ≤ d.shift then do
    let power ← tenTo d.shift.toNat
    pure (d.mantissa * power, 1)
  else do
    let power ← tenTo (-d.shift).toNat
    pure (d.mantissa, power)

/-- Forming the power step by step, with a record of the steps, gives the same ratio. The steps
are those of one power, with the shift as its exponent, and zero takes none. -/
theorem recorded_ratioBy (d : Decimal) :
    d.ratioBy (integer.recorded.power 10) =
      ⟨if d.isZero then [] else (integer.recorded.power 10 d.shift.natAbs).steps,
        .ok d.ratio⟩ := by
  rw [ratioBy, ratio]
  by_cases hzero : d.isZero = true
  · rw [if_pos hzero, if_pos hzero, if_pos hzero]
    rfl
  rw [if_neg hzero, if_neg hzero, if_neg hzero]
  by_cases hshift : 0 ≤ d.shift
  · have habs : d.shift.natAbs = d.shift.toNat := by omega
    rw [if_pos hshift, if_pos hshift, recorded_power_bind_pure, habs, Nat.pow_eq]
    push_cast
    rfl
  · have habs : d.shift.natAbs = (-d.shift).toNat := by omega
    rw [if_neg hshift, if_neg hshift, recorded_power_bind_pure, habs, Nat.pow_eq]
    push_cast
    rfl

theorem admitted_iff : Admitted d ↔ d.isZero = true ∨ |d.exponent| ≤ (maxExponent : ℕ) := by
  rw [Admitted, isZero_iff]
  rfl

theorem shift_bounds (h : |d.exponent| ≤ E) :
    d.shift ≤ E ∧ d.shift.natAbs ≤ E + d.fraction.length := by
  obtain ⟨hlow, hhigh⟩ := abs_le.mp h
  rw [shift]
  omega

theorem steps_ratioBy (h : d.isZero = true ∨ |d.exponent| ≤ E) :
    ∀ s ∈ (d.ratioBy (integer.recorded.power 10)).steps, s.IsPower 10 (E + d.fraction.length) := by
  rw [recorded_ratioBy]
  by_cases hzero : d.isZero = true
  · rw [if_pos hzero]
    simp
  rw [if_neg hzero]
  intro s hs
  have hpower := Arithmetic.integer_isExact.steps_power 10 d.shift.natAbs s hs
  exact hpower.mono (shift_bounds (h.resolve_left hzero)).2

theorem ratio_bounds (hd : IsDigits d.digits) (h : d.isZero = true ∨ |d.exponent| ≤ E) :
    d.ratio.1.natAbs < 10 ^ (d.digits.length + E) ∧
      d.ratio.2.natAbs ≤ 10 ^ (d.digits.length + E) := by
  have hpos : 0 < 10 ^ (d.digits.length + E) := Nat.pow_pos (by decide)
  rw [ratio]
  by_cases hzero : d.isZero = true
  · rw [if_pos hzero]
    exact ⟨hpos, hpos⟩
  obtain ⟨hup, hdown⟩ := shift_bounds (h.resolve_left hzero)
  have hmantissa : d.mantissa.natAbs < 10 ^ d.digits.length := by
    rw [mantissa, signed_eq, digitsValue_eq_number, natAbs_signFactor_mul]
    exact number_lt hd
  have hfraction : d.fraction.length ≤ d.digits.length := by
    rw [digits, List.length_append]
    exact Nat.le_add_left _ _
  rw [if_neg hzero]
  by_cases hshift : 0 ≤ d.shift
  · rw [if_pos hshift]
    refine ⟨?_, hpos⟩
    calc (d.mantissa * (Nat.pow 10 d.shift.toNat : ℕ)).natAbs
        = d.mantissa.natAbs * 10 ^ d.shift.toNat := by rw [Int.natAbs_mul, Int.natAbs_natCast]; rfl
      _ < 10 ^ d.digits.length * 10 ^ d.shift.toNat :=
        Nat.mul_lt_mul_of_pos_right hmantissa (Nat.pow_pos (by decide))
      _ = 10 ^ (d.digits.length + d.shift.toNat) := (Nat.pow_add _ _ _).symm
      _ ≤ 10 ^ (d.digits.length + E) := Nat.pow_le_pow_right (by decide) (by omega)
  · rw [if_neg hshift]
    constructor
    · exact lt_of_lt_of_le hmantissa (Nat.pow_le_pow_right (by decide) (by omega))
    · rw [Int.natAbs_natCast]
      exact Nat.pow_le_pow_right (by decide) (by omega)

end Decimal

end Numeral

/-- Reduction makes neither the numerator nor the denominator larger. -/
theorem natAbs_num_divInt_le (a : ℤ) {b : ℤ} (hb : b ≠ 0) :
    (Rat.divInt a b).num.natAbs ≤ a.natAbs := by
  by_cases ha : a = 0
  · rw [ha, Rat.zero_divInt]
    exact Nat.le_refl 0
  · exact Nat.le_of_dvd (Int.natAbs_pos.mpr ha)
      (Int.natAbs_dvd_natAbs.mpr (Rat.num_dvd a hb))

theorem den_divInt_le (a : ℤ) {b : ℤ} (hb : b ≠ 0) : (Rat.divInt a b).den ≤ b.natAbs :=
  Nat.le_of_dvd (Int.natAbs_pos.mpr hb) (Int.natCast_dvd.mp (Rat.den_dvd a b))

namespace Numeral

theorem Literal.value_fraction_bounds {t : List Char} {n d : ℤ} (h : WrittenFraction t n d)
    (hd : d ≠ 0) : (Literal.fraction n d).value.num.natAbs < 10 ^ t.length ∧
      (Literal.fraction n d).value.den < 10 ^ t.length :=
  ⟨lt_of_le_of_lt (natAbs_num_divInt_le n hd) h.natAbs_lt.1,
    lt_of_le_of_lt (den_divInt_le n hd) h.natAbs_lt.2⟩

theorem Literal.value_decimal_bounds {t : List Char} {d : Decimal} {E : ℕ}
    (h : WrittenDecimal t d) (hE : d.isZero = true ∨ |d.exponent| ≤ E) :
    (Literal.decimal d).value.num.natAbs < 10 ^ (t.length + E) ∧
      (Literal.decimal d).value.den ≤ 10 ^ (t.length + E) := by
  have hd := d.ratio_snd_ne_zero
  obtain ⟨hnum, hden⟩ := Decimal.ratio_bounds h.isDigits hE
  have hmono : 10 ^ (d.digits.length + E) ≤ 10 ^ (t.length + E) :=
    Nat.pow_le_pow_right (by decide) (Nat.add_le_add_right h.length_le E)
  constructor
  · exact lt_of_le_of_lt (natAbs_num_divInt_le _ hd) (lt_of_lt_of_le hnum hmono)
  · exact (den_divInt_le _ hd).trans (hden.trans hmono)

/-- Whatever a text is written as, its length and the limit on exponents bound its value. -/
theorem Written.value_bounds {t : List Char} {l : Literal} (h : Written t l) :
    l.value.num.natAbs < 10 ^ (t.length + maxExponent) ∧
      l.value.den ≤ 10 ^ (t.length + maxExponent) := by
  cases h with
  | fraction h hd =>
    obtain ⟨hnum, hden⟩ := Literal.value_fraction_bounds h hd
    have hmono : 10 ^ t.length ≤ 10 ^ (t.length + maxExponent) :=
      Nat.pow_le_pow_right (by decide) (Nat.le_add_right _ _)
    exact ⟨lt_of_lt_of_le hnum hmono, hden.le.trans hmono⟩
  | decimal h hadmitted => exact Literal.value_decimal_bounds h (Decimal.admitted_iff.mp hadmitted)

end Numeral

namespace Coordinate

def readBy {m : Type → Type} [Monad m] (A : Arithmetic m ℤ) (s : String) :
    m (Except Rejection ℚ) :=
  match literal? s with
  | none => pure (.error (.invalidCoordinate s))
  | some (.fraction n d) => pure (.ok (Rat.divInt n d))
  | some (.decimal d) => do
    let r ← d.ratioBy (A.power 10)
    pure (.ok (Rat.divInt r.1 r.2))

theorem recorded_readBy_decimal {s : String} {d : Decimal} (h : literal? s = some (.decimal d)) :
    readBy integer.recorded s =
      ⟨(d.ratioBy (integer.recorded.power 10)).steps, .ok (.ok (Literal.decimal d).value)⟩ := by
  simp only [readBy, h, Decimal.recorded_ratioBy, Recorded.ok_bind, Recorded.pure_eq,
    List.append_nil]
  rfl

/-- The record changes nothing about the result, and a text that is refused or is a fraction
leaves it empty. -/
theorem outcome_readBy (s : String) : (readBy integer.recorded s).outcome = .ok (read s) := by
  cases h : literal? s with
  | none =>
    simp only [readBy, h, read_of_none h]
    rfl
  | some l =>
    rw [read_of_some h]
    cases l with
    | fraction n d =>
      simp only [readBy, h]
      rfl
    | decimal d => rw [recorded_readBy_decimal h]

theorem isPower_of_mem_readBy {s : String} {d : Decimal} (h : literal? s = some (.decimal d)) :
    ∀ p ∈ (readBy integer.recorded s).steps, p.IsPower 10 (maxExponent + d.fraction.length) := by
  obtain ⟨t, -, hwritten⟩ := literal?_eq_some_iff.mp h
  cases hwritten with
  | decimal _ hadmitted =>
    rw [recorded_readBy_decimal h]
    exact Decimal.steps_ratioBy (Decimal.admitted_iff.mp hadmitted)

/-- Reading cannot blow up. The number that is read is in lowest terms, and the bytes of the text
and ten thousand more digits bound its numerator and its denominator. For a decimal no power
of ten is formed with an exponent above ten thousand and the number of digits after the point,
however long the written exponent is. For a fraction none is formed at all, and the bytes alone
are the bound. -/
theorem reading_bounded (s : String) (q : ℚ) (h : read s = .ok q) :
    (|q.num| < 10 ^ (s.utf8ByteSize + 10000) ∧ 0 < q.den ∧
      q.den ≤ 10 ^ (s.utf8ByteSize + 10000) ∧ q.num.natAbs.Coprime q.den) ∧
    (readBy integer.recorded s).outcome = .ok (.ok q) ∧
    (∀ d, literal? s = some (.decimal d) → ∀ p ∈ (readBy integer.recorded s).steps,
      p.IsPower 10 (10000 + d.fraction.length)) ∧
    (∀ n d, literal? s = some (.fraction n d) → (readBy integer.recorded s).steps = [] ∧
      |q.num| < 10 ^ s.utf8ByteSize ∧ q.den < 10 ^ s.utf8ByteSize) := by
  obtain ⟨l, hl, hq⟩ := read_eq_ok_iff.mp h
  obtain ⟨t, ht, hwritten⟩ := literal?_eq_some_iff.mp hl
  have hlen : t.length ≤ s.utf8ByteSize := ht.length_le.trans (length_toList_le_utf8ByteSize s)
  have hmono : ∀ E, 10 ^ (t.length + E) ≤ 10 ^ (s.utf8ByteSize + E) := fun E =>
    Nat.pow_le_pow_right (by decide) (Nat.add_le_add_right hlen E)
  obtain ⟨hnum, hden⟩ := hwritten.value_bounds
  rw [← hq] at hnum hden
  refine ⟨⟨?_, q.den_pos, hden.trans (hmono _), q.reduced⟩, ?_, ?_, ?_⟩
  · rw [Int.abs_eq_natAbs]
    exact_mod_cast lt_of_lt_of_le hnum (hmono _)
  · rw [outcome_readBy, h]
  · intro d hd
    exact isPower_of_mem_readBy hd
  · intro n d hd
    obtain rfl : l = .fraction n d := Option.some.inj (hl.symm.trans hd)
    cases hwritten with
    | fraction hfraction hne =>
      obtain ⟨hnum, hden⟩ := Literal.value_fraction_bounds hfraction hne
      rw [← hq] at hnum hden
      have hbytes : 10 ^ t.length ≤ 10 ^ s.utf8ByteSize := hmono 0
      refine ⟨by simp only [readBy, hd]; rfl, ?_, lt_of_lt_of_le hden hbytes⟩
      rw [Int.abs_eq_natAbs]
      exact_mod_cast lt_of_lt_of_le hnum hbytes

/-- A decimal with a point, a negative exponent and zeros to spare, and a fraction that can be
reduced. -/
theorem reading_bounded_spellings :
    read " -012.50e-0003\n" = .ok (-1 / 80) ∧
      ((-1 / 80 : ℚ).den ≤ 10 ^ (" -012.50e-0003\n".utf8ByteSize + 10000) ∧
        (readBy integer.recorded " -012.50e-0003\n").outcome = .ok (.ok (-1 / 80)) ∧
        ∀ p ∈ (readBy integer.recorded " -012.50e-0003\n").steps,
          p.IsPower 10 (10000 + ['5', '0'].length)) ∧
      read "+6 / -004" = .ok (-3 / 2) ∧
      (readBy integer.recorded "+6 / -004").steps = [] ∧
        |(-3 / 2 : ℚ).num| < 10 ^ "+6 / -004".utf8ByteSize := by
  have hdecimal : read " -012.50e-0003\n" = .ok (-1 / 80) := by decide +kernel
  have hfraction : read "+6 / -004" = .ok (-3 / 2) := by decide +kernel
  obtain ⟨⟨-, -, hden, -⟩, hout, hsteps, -⟩ := reading_bounded _ _ hdecimal
  obtain ⟨-, -, -, hnone⟩ := reading_bounded _ _ hfraction
  obtain ⟨hempty, hnum, -⟩ := hnone 6 (-4) rfl
  have hpowers := hsteps ⟨true, ['0', '1', '2'], ['5', '0'], -3⟩ rfl
  exact ⟨hdecimal, ⟨hden, hout, hpowers⟩, hfraction, hempty, hnum⟩

end Coordinate

end Collocation
