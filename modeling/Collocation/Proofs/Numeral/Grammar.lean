import Collocation.Numeral.Coordinate
import Collocation.Proofs.Text.Characters
import Mathlib.Data.Nat.Digits.Defs

/-!
# How numbers are written

The grammar of coordinates, rule by rule, and the numbers that its parts stand for. Nothing
here reads a text: a rule says which pieces a text may be put together from. A digit string
stands for the sum of its digits times the powers of ten at their positions.
-/

set_option autoImplicit false

namespace Collocation.Numeral

open Text

def IsDigits (cs : List Char) : Prop := ∀ c ∈ cs, '0' ≤ c ∧ c ≤ '9'

def number (ds : List Char) : ℕ := Nat.ofDigits 10 (ds.reverse.map digitValue)

inductive Sign : List Char → Bool → Prop where
  | absent : Sign [] false
  | plus : Sign ['+'] false
  | minus : Sign ['-'] true

def signFactor (negative : Bool) : ℤ := if negative then -1 else 1

def SignedInteger (cs : List Char) (n : ℤ) : Prop :=
  ∃ sign negative ds, cs = sign ++ ds ∧ Sign sign negative ∧ IsDigits ds ∧ ds ≠ [] ∧
    n = signFactor negative * number ds

inductive Mantissa : List Char → List Char → List Char → Prop where
  | whole {I : List Char} (hI : IsDigits I) (hne : I ≠ []) : Mantissa I I []
  | pointed {I F : List Char} (hI : IsDigits I) (hne : I ≠ []) (hF : IsDigits F) :
      Mantissa (I ++ '.' :: F) I F
  | fraction {F : List Char} (hF : IsDigits F) (hne : F ≠ []) : Mantissa ('.' :: F) [] F

inductive Exponent : List Char → ℤ → Prop where
  | absent : Exponent [] 0
  | lower {cs : List Char} {e : ℤ} (h : SignedInteger cs e) : Exponent ('e' :: cs) e
  | upper {cs : List Char} {e : ℤ} (h : SignedInteger cs e) : Exponent ('E' :: cs) e

def WrittenDecimal (cs : List Char) (d : Decimal) : Prop :=
  ∃ sign m x, cs = sign ++ m ++ x ∧ Sign sign d.negative ∧ Mantissa m d.whole d.fraction ∧
    Exponent x d.exponent

def WrittenFraction (cs : List Char) (n d : ℤ) : Prop :=
  ∃ A B a b, cs = A ++ '/' :: B ∧ IsTrim A a ∧ IsTrim B b ∧ SignedInteger a n ∧ SignedInteger b d

def Admitted (d : Decimal) : Prop :=
  (∀ c ∈ d.whole ++ d.fraction, c = '0') ∨ |d.exponent| ≤ 10000

inductive Written : List Char → Literal → Prop where
  | fraction {cs : List Char} {n d : ℤ} (h : WrittenFraction cs n d) (hd : d ≠ 0) :
      Written cs (.fraction n d)
  | decimal {cs : List Char} {d : Decimal} (h : WrittenDecimal cs d) (hd : Admitted d) :
      Written cs (.decimal d)

/-! What a digit string stands for is fixed by the ten digits: the decimal digits of a number stand
for that number. -/

theorem digitValue_digitChar {d : ℕ} (h : d < 10) : digitValue d.digitChar = d := by
  have hall : ∀ d < 10, digitValue d.digitChar = d := by decide
  exact hall d h

theorem number_concat (ds : List Char) (c : Char) :
    number (ds ++ [c]) = 10 * number ds + digitValue c := by
  rw [number, List.reverse_append, List.map_append]
  change digitValue c + 10 * number ds = _
  exact Nat.add_comm _ _

theorem number_toDigits (n : ℕ) : number (Nat.toDigits 10 n) = n := by
  induction n using Nat.strong_induction_on with
  | _ n ih =>
    rw [Nat.toDigits_eq_if (by decide)]
    by_cases hn : n < 10
    · rw [if_pos hn]
      change digitValue n.digitChar + 10 * 0 = n
      rw [digitValue_digitChar hn]
      rfl
    · have hlast := digitValue_digitChar (Nat.mod_lt n (show 0 < 10 by decide))
      rw [if_neg hn, number_concat, ih (n / 10) (by omega), hlast]
      omega

/-! The characters that the pieces are made of. -/

theorem IsDigits.ne {ds : List Char} {c x : Char} (h : IsDigits ds) (hc : c ∈ ds)
    (hx : ¬ ('0' ≤ x ∧ x ≤ '9')) : c ≠ x := by
  rintro rfl
  exact hx (h c hc)

theorem IsDigits.append {ds es : List Char} (hd : IsDigits ds) (he : IsDigits es) :
    IsDigits (ds ++ es) := by
  intro c hc
  rcases List.mem_append.mp hc with h | h
  · exact hd c h
  · exact he c h

theorem Sign.mem {sign : List Char} {negative : Bool} (h : Sign sign negative) {c : Char}
    (hc : c ∈ sign) : c = '+' ∨ c = '-' := by
  cases h with
  | absent => cases hc
  | plus => exact Or.inl (List.mem_singleton.mp hc)
  | minus => exact Or.inr (List.mem_singleton.mp hc)

theorem Mantissa.mem {m I F : List Char} (h : Mantissa m I F) {c : Char} (hc : c ∈ m) :
    ('0' ≤ c ∧ c ≤ '9') ∨ c = '.' := by
  cases h with
  | whole hI _ => exact Or.inl (hI c hc)
  | pointed hI _ hF =>
    rcases List.mem_append.mp hc with h | h
    · exact Or.inl (hI c h)
    rcases List.mem_cons.mp h with h | h
    · exact Or.inr h
    · exact Or.inl (hF c h)
  | fraction hF _ =>
    rcases List.mem_cons.mp hc with h | h
    · exact Or.inr h
    · exact Or.inl (hF c h)

theorem Mantissa.isDigits {m I F : List Char} (h : Mantissa m I F) : IsDigits (I ++ F) := by
  cases h with
  | whole hI _ => rwa [List.append_nil]
  | pointed hI _ hF => exact hI.append hF
  | fraction hF _ => exact hF

theorem Sign.ne_append {sign m I F : List Char} {negative : Bool} (hs : Sign sign negative)
    (hm : Mantissa m I F) {c x : Char} (hc : c ∈ sign ++ m)
    (hx : ¬ ('0' ≤ x ∧ x ≤ '9') ∧ x ≠ '.' ∧ x ≠ '+' ∧ x ≠ '-') : c ≠ x := by
  rintro rfl
  rcases List.mem_append.mp hc with h | h
  · rcases hs.mem h with h | h
    · exact hx.2.2.1 h
    · exact hx.2.2.2 h
  · rcases hm.mem h with h | h
    · exact hx.1 h
    · exact hx.2.1 h

theorem SignedInteger.mem {cs : List Char} {n : ℤ} (h : SignedInteger cs n) {c : Char}
    (hc : c ∈ cs) : ('0' ≤ c ∧ c ≤ '9') ∨ c = '+' ∨ c = '-' := by
  obtain ⟨sign, negative, ds, rfl, hs, hd, -, -⟩ := h
  rcases List.mem_append.mp hc with h | h
  · exact Or.inr (hs.mem h)
  · exact Or.inl (hd c h)

theorem SignedInteger.bar_not_mem {cs : List Char} {n : ℤ} (h : SignedInteger cs n) :
    '/' ∉ cs := by
  intro hmem
  exact absurd (h.mem hmem) (by decide)

theorem bar_not_mem_of_isTrim {cs t : List Char} (h : IsTrim cs t) (ht : '/' ∉ t) :
    '/' ∉ cs := by
  obtain ⟨before, after, rfl, hbefore, hafter⟩ := h.split
  intro hmem
  rcases List.mem_append.mp hmem with h | h
  · rcases List.mem_append.mp h with h | h
    · exact absurd (hbefore '/' h) (by decide)
    · exact ht h
  · exact absurd (hafter '/' h) (by decide)

theorem Exponent.bar_not_mem {x : List Char} {e : ℤ} (h : Exponent x e) : '/' ∉ x := by
  cases h with
  | absent => simp
  | lower hi => simpa using hi.bar_not_mem
  | upper hi => simpa using hi.bar_not_mem

theorem WrittenDecimal.bar_not_mem {cs : List Char} {d : Decimal} (h : WrittenDecimal cs d) :
    '/' ∉ cs := by
  obtain ⟨sign, m, x, rfl, hs, hm, hx⟩ := h
  intro hmem
  rcases List.mem_append.mp hmem with h | h
  · exact hs.ne_append hm h (by decide) rfl
  · exact hx.bar_not_mem h

end Collocation.Numeral
