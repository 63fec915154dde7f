import Collocation.Numeral.Coordinate
import Collocation.Proofs.Numeral.Reading
import Mathlib.Algebra.Order.Field.Power
import Mathlib.Algebra.Field.Rat
import Mathlib.Tactic.Ring

/-!
# Which coordinates are accepted and what they denote

A coordinate is accepted exactly if its text without surrounding blanks is written by the
grammar. It denotes the number that stands there: the quotient of two integers, or the digits of
the mantissa scaled by the power of ten that the exponent and the point ask for. Zero is not
scaled, which makes no difference to its value.
-/

set_option autoImplicit false

namespace Collocation

open Text Numeral

namespace Numeral

theorem not_isBlank_of_isDigit {c : Char} (h : '0' ≤ c ∧ c ≤ '9') : isBlank c = false := by
  have hlow : '0'.toNat ≤ c.toNat := UInt32.le_iff_toNat_le.mp h.1
  have hhigh : c.toNat ≤ '9'.toNat := UInt32.le_iff_toNat_le.mp h.2
  have hzero : '0'.toNat = 48 := rfl
  have hnine : '9'.toNat = 57 := rfl
  simp [isBlank, blankRanges]
  omega

theorem SignedInteger.isTrim {cs : List Char} {n : ℤ} (h : SignedInteger cs n) :
    IsTrim cs cs := by
  have hvisible : ∀ c ∈ cs, isBlank c = false := by
    intro c hc
    rcases h.mem hc with hdigit | rfl | rfl
    · exact not_isBlank_of_isDigit hdigit
    · rfl
    · rfl
  refine ⟨⟨[], [], by simp, by simp, by simp⟩, ?_, ?_⟩
  · intro c hc
    exact hvisible c (List.mem_of_mem_head? hc)
  · intro c hc
    exact hvisible c (List.mem_of_getLast? hc)

theorem isDigits_toDigits (n : ℕ) : IsDigits (Nat.toDigits 10 n) := by
  intro c hc
  exact isDigit_iff.mp (Nat.isDigit_of_mem_toDigits (by decide) (by decide) hc)

theorem signedInteger_toString (n : ℤ) : SignedInteger (toString n).toList n := by
  rw [Int.toString_eq_repr]
  cases n with
  | ofNat k =>
    refine ⟨[], false, Nat.toDigits 10 k, Nat.toList_repr, .absent, isDigits_toDigits k,
      Nat.toDigits_ne_nil, ?_⟩
    rw [number_toDigits, signFactor, if_neg Bool.false_ne_true, one_mul]
    rfl
  | negSucc k =>
    refine ⟨['-'], true, Nat.toDigits 10 (k + 1), ?_, .minus, isDigits_toDigits (k + 1),
      Nat.toDigits_ne_nil, ?_⟩
    · change ("-" ++ (k + 1).repr).toList = _
      rw [String.toList_append, Nat.toList_repr]
      rfl
    · rw [number_toDigits, signFactor, if_pos rfl, neg_one_mul]
      rfl

theorem number_eq_zero {ds : List Char} (h : ∀ c ∈ ds, c = '0') : number ds = 0 := by
  rw [← digitsValue_eq_number]
  induction ds using List.reverseRecOn with
  | nil => rfl
  | append_singleton ds c ih =>
    rw [digitsValue_concat, ih fun x hx => h x (by simp [hx]), h c (by simp)]
    rfl

theorem Decimal.ratio_snd_ne_zero (d : Decimal) : d.ratio.2 ≠ 0 := by
  rw [ratio]
  split
  · exact one_ne_zero
  · split
    · exact one_ne_zero
    · rw [Nat.pow_eq]
      positivity

theorem Literal.value_decimal (d : Decimal) : (Literal.decimal d).value =
    signFactor d.negative * number (d.whole ++ d.fraction) *
      10 ^ (d.exponent - d.fraction.length) := by
  have hmantissa : d.mantissa = signFactor d.negative * number (d.whole ++ d.fraction) := by
    rw [Decimal.mantissa, signed_eq, digitsValue_eq_number, Decimal.digits]
  change Rat.divInt d.ratio.1 d.ratio.2 = _ * 10 ^ d.shift
  rw [Rat.divInt_eq_div, Decimal.ratio]
  by_cases hzero : d.isZero = true
  · rw [if_pos hzero, number_eq_zero (Decimal.isZero_iff.mp hzero)]
    simp
  rw [if_neg hzero, hmantissa]
  by_cases hshift : 0 ≤ d.shift
  · have hpow : (10 : ℚ) ^ d.shift = 10 ^ d.shift.toNat := by
      rw [← zpow_natCast, Int.toNat_of_nonneg hshift]
    rw [if_pos hshift, hpow, Nat.pow_eq]
    push_cast
    rw [div_one]
  · have hpow : (10 : ℚ) ^ d.shift = (10 ^ (-d.shift).toNat)⁻¹ := by
      rw [← zpow_natCast, Int.toNat_of_nonneg (by omega), ← zpow_neg, neg_neg]
    rw [if_neg hshift, hpow, Nat.pow_eq]
    push_cast
    rw [div_eq_mul_inv]

theorem Literal.value_fraction (n d : ℤ) : (Literal.fraction n d).value = n / d :=
  Rat.divInt_eq_div n d

end Numeral

namespace Coordinate

theorem literal?_eq_some_iff {s : String} {l : Literal} :
    literal? s = some l ↔ ∃ t, IsTrim s.toList t ∧ Written t l := by
  constructor
  · intro h
    exact ⟨trim s.toList, isTrim_trim s.toList, Literal.read?_eq_some_iff.mp h⟩
  · rintro ⟨t, ht, hl⟩
    rw [literal?, trim_eq_iff.mpr ht]
    exact Literal.read?_eq_some_iff.mpr hl

theorem read_of_some {s : String} {l : Literal} (h : literal? s = some l) :
    read s = .ok l.value := by
  rw [read, h]

theorem read_of_none {s : String} (h : literal? s = none) :
    read s = .error (.invalidCoordinate s) := by
  rw [read, h]

theorem read_eq_ok_iff {s : String} {q : ℚ} :
    read s = .ok q ↔ ∃ l, literal? s = some l ∧ q = l.value := by
  cases h : literal? s with
  | none => simp [read_of_none h]
  | some l =>
    rw [read_of_some h, Except.ok.injEq]
    constructor
    · intro hq
      exact ⟨l, rfl, hq.symm⟩
    · rintro ⟨l', hl, hq⟩
      rw [hq, Option.some.inj hl]

def IsCoordinate (t : List Char) : Prop :=
  (∃ n d, WrittenFraction t n d ∧ d ≠ 0) ∨ ∃ d, WrittenDecimal t d ∧ Admitted d

theorem isCoordinate_iff {t : List Char} : IsCoordinate t ↔ ∃ l, Written t l := by
  constructor
  · rintro (⟨n, d, h, hd⟩ | ⟨d, h, hd⟩)
    · exact ⟨_, .fraction h hd⟩
    · exact ⟨_, .decimal h hd⟩
  · rintro ⟨l, h⟩
    cases h with
    | fraction h hd => exact Or.inl ⟨_, _, h, hd⟩
    | decimal h hd => exact Or.inr ⟨_, h, hd⟩

theorem exists_literal_iff (s : String) :
    (∃ l, literal? s = some l) ↔ ∃ t, IsTrim s.toList t ∧ IsCoordinate t := by
  constructor
  · rintro ⟨l, h⟩
    obtain ⟨t, ht, hl⟩ := literal?_eq_some_iff.mp h
    exact ⟨t, ht, isCoordinate_iff.mpr ⟨l, hl⟩⟩
  · rintro ⟨t, ht, h⟩
    obtain ⟨l, hl⟩ := isCoordinate_iff.mp h
    exact ⟨l, literal?_eq_some_iff.mpr ⟨t, ht, hl⟩⟩

/-- Reading accepts what the grammar writes, and refuses all else with the text as it was
given. -/
theorem accepts_grammar (s : String) :
    ((∃ q, read s = .ok q) ↔ ∃ t, IsTrim s.toList t ∧ IsCoordinate t) ∧
    (read s = .error (.invalidCoordinate s) ↔ ¬ ∃ t, IsTrim s.toList t ∧ IsCoordinate t) := by
  rw [← exists_literal_iff]
  cases h : literal? s with
  | none => simp [read_of_none h]
  | some l => simp [read_of_some h]

inductive Denotes : List Char → ℚ → Prop where
  | fraction {t : List Char} {n d : ℤ} (h : WrittenFraction t n d) (hd : d ≠ 0) :
      Denotes t (n / d)
  | decimal {t : List Char} {d : Decimal} (h : WrittenDecimal t d) (hd : Admitted d) :
      Denotes t (signFactor d.negative * number (d.whole ++ d.fraction) *
        10 ^ (d.exponent - d.fraction.length))

theorem denotes_iff {t : List Char} {q : ℚ} :
    Denotes t q ↔ ∃ l, Written t l ∧ q = l.value := by
  constructor
  · intro h
    cases h with
    | fraction h hd => exact ⟨_, .fraction h hd, (Literal.value_fraction _ _).symm⟩
    | decimal h hd => exact ⟨_, .decimal h hd, (Literal.value_decimal _).symm⟩
  · rintro ⟨l, h, rfl⟩
    cases h with
    | fraction h hd =>
      rw [Literal.value_fraction]
      exact .fraction h hd
    | decimal h hd =>
      rw [Literal.value_decimal]
      exact .decimal h hd

/-- Reading returns exactly the number that is written, in lowest terms. -/
theorem returns_denoted (s : String) (q : ℚ) :
    read s = .ok q ↔ (∃ t, IsTrim s.toList t ∧ Denotes t q) ∧ 0 < q.den ∧
      q.num.natAbs.Coprime q.den := by
  rw [read_eq_ok_iff]
  constructor
  · rintro ⟨l, h, hq⟩
    obtain ⟨t, ht, hl⟩ := literal?_eq_some_iff.mp h
    exact ⟨⟨t, ht, denotes_iff.mpr ⟨l, hl, hq⟩⟩, q.den_pos, q.reduced⟩
  · rintro ⟨⟨t, ht, h⟩, -⟩
    obtain ⟨l, hl, hq⟩ := denotes_iff.mp h
    exact ⟨l, literal?_eq_some_iff.mpr ⟨t, ht, hl⟩, hq⟩

theorem read_of_signedInteger {s : String} {n : ℤ} (h : SignedInteger s.toList n) :
    read s = .ok n := by
  have htrim := h.isTrim
  obtain ⟨sign, negative, ds, hs, hsign, hd, hne, rfl⟩ := h
  let d : Decimal := ⟨negative, ds, [], 0⟩
  have hwritten : WrittenDecimal s.toList d :=
    ⟨sign, ds, [], by rw [hs, List.append_nil], hsign, .whole hd hne, .absent⟩
  have hadmitted : Admitted d := Or.inr (by norm_num [d])
  have hvalue : (Literal.decimal d).value = signFactor negative * number ds := by
    rw [Literal.value_decimal]
    simp [d]
  have hliteral := literal?_eq_some_iff.mpr ⟨_, htrim, .decimal hwritten hadmitted⟩
  rw [read_of_some hliteral, hvalue]
  push_cast
  rfl

/-- An integer in the usual decimal form is read as that integer. -/
theorem read_toString (n : ℤ) : read (toString n) = .ok n :=
  read_of_signedInteger (signedInteger_toString n)

example : read "\u2003-.5e1\n" = .ok (-5) := rfl

end Coordinate

end Collocation
