import Collocation.Proofs.Numeral.Grammar
import Mathlib.Data.Nat.Digits.Lemmas

/-!
# The reader and the grammar

Each part of the reader is matched with its rule: the digit fold with positional values, the
sign with an optional sign, each cut with the character that it looks for. A cut finds the right
place because the pieces of the grammar never contain the character that ends them. So a text is
read as a literal exactly if the grammar writes it that way.
-/

set_option autoImplicit false

namespace Collocation.Numeral

open Text

theorem isDigit_iff {c : Char} : c.isDigit = true ↔ '0' ≤ c ∧ c ≤ '9' := by
  simp [Char.isDigit, Char.le_def]

theorem isDigitString_iff {cs : List Char} : isDigitString cs = true ↔ cs ≠ [] ∧ IsDigits cs := by
  simp only [isDigitString, Bool.and_eq_true, Bool.not_eq_true', List.isEmpty_eq_false_iff,
    List.all_eq_true, isDigit_iff]
  rfl

theorem digitsValue_eq_number (ds : List Char) : digitsValue ds = number ds := by
  induction ds using List.reverseRecOn with
  | nil => rfl
  | append_singleton ds c ih =>
    rw [digitsValue_concat, ih, number_concat]

theorem signed_eq (negative : Bool) (n : ℕ) : signed negative n = signFactor negative * n := by
  cases negative <;> simp [signed, signFactor]

theorem splitSign_spec (cs : List Char) :
    ∃ sign, Sign sign (splitSign cs).1 ∧ cs = sign ++ (splitSign cs).2 := by
  unfold splitSign
  split
  · exact ⟨['-'], .minus, rfl⟩
  · exact ⟨['+'], .plus, rfl⟩
  · exact ⟨[], .absent, rfl⟩

theorem splitSign_append {sign cs : List Char} {negative : Bool} (hs : Sign sign negative)
    (h : ∀ c ∈ cs, c ≠ '+' ∧ c ≠ '-') : splitSign (sign ++ cs) = (negative, cs) := by
  cases hs with
  | plus => rfl
  | minus => rfl
  | absent =>
    rw [List.nil_append]
    unfold splitSign
    split
    · exact absurd rfl (h '-' (by simp)).2
    · exact absurd rfl (h '+' (by simp)).1
    · rfl

theorem readInteger?_eq_some_iff {cs : List Char} {n : ℤ} :
    readInteger? cs = some n ↔ SignedInteger cs n := by
  constructor
  · intro h
    obtain ⟨sign, hs, hcs⟩ := splitSign_spec cs
    simp only [readInteger?] at h
    split at h
    · next hd =>
      obtain ⟨hne, hdigits⟩ := isDigitString_iff.mp hd
      refine ⟨sign, _, _, hcs, hs, hdigits, hne, ?_⟩
      rw [← Option.some.inj h, signed_eq, digitsValue_eq_number]
    · cases h
  · rintro ⟨sign, negative, ds, rfl, hs, hd, hne, rfl⟩
    have hsplit : splitSign (sign ++ ds) = (negative, ds) :=
      splitSign_append hs fun c hc => ⟨hd.ne hc (by decide), hd.ne hc (by decide)⟩
    simp only [readInteger?, hsplit, if_pos (isDigitString_iff.mpr ⟨hne, hd⟩), signed_eq,
      digitsValue_eq_number]

section Cut

variable {p : Char → Bool} {a b cs : List Char} {c : Char}

theorem forall_not_of_forall_eq_false (ha : ∀ x ∈ a, p x = false) : ∀ x ∈ a, (!p x) = true := by
  intro x hx
  rw [ha x hx]
  rfl

theorem cut_append (ha : ∀ x ∈ a, p x = false) (hc : p c = true) :
    cut p (a ++ c :: b) = (a, some b) := by
  have hkeep := forall_not_of_forall_eq_false ha
  rw [cut, List.takeWhile_append_of_pos hkeep, List.dropWhile_append_of_pos hkeep,
    List.takeWhile_cons, List.dropWhile_cons, hc]
  simp

theorem cut_of_forall (h : ∀ x ∈ cs, p x = false) : cut p cs = (cs, none) := by
  have hkeep := forall_not_of_forall_eq_false h
  rw [cut, List.takeWhile_eq_self_iff.mpr hkeep, List.dropWhile_eq_nil_iff.mpr hkeep]
  rfl

theorem cut_cases (p : Char → Bool) (cs : List Char) :
    cut p cs = (cs, none) ∨
      ∃ a c b, cs = a ++ c :: b ∧ p c = true ∧ cut p cs = (a, some b) := by
  have hsplit := List.takeWhile_append_dropWhile (p := fun c => !p c) (l := cs)
  have hbefore : ∀ x ∈ cs.takeWhile fun c => !p c, p x = false := by
    intro x hx
    simpa using List.mem_takeWhile_imp hx
  cases hrest : cs.dropWhile fun c => !p c with
  | nil =>
    rw [hrest, List.append_nil] at hsplit
    rw [hsplit] at hbefore
    exact Or.inl (cut_of_forall hbefore)
  | cons c b =>
    have hc : p c = true := by
      have hhead : (cs.dropWhile fun c => !p c).head? = some c := by rw [hrest]; rfl
      simpa using head?_dropWhile hhead
    rw [hrest] at hsplit
    refine Or.inr ⟨_, c, b, hsplit.symm, hc, ?_⟩
    rw [← cut_append hbefore hc, hsplit]

end Cut

theorem mantissa_iff {m I F : List Char} :
    Mantissa m I F ↔ (cut (· == '.') m).1 = I ∧ (cut (· == '.') m).2.getD [] = F ∧
      isDigitString (I ++ F) = true := by
  have hpoint : ∀ {ds : List Char}, IsDigits ds → ∀ c ∈ ds, (c == '.') = false := by
    intro ds hd c hc
    exact beq_eq_false_iff_ne.mpr (hd.ne hc (by decide))
  constructor
  · intro h
    have hdigits := h.isDigits
    cases h with
    | whole hI hne =>
      rw [cut_of_forall (hpoint hI)]
      exact ⟨rfl, rfl, isDigitString_iff.mpr ⟨by simpa using hne, hdigits⟩⟩
    | pointed hI hne hF =>
      rw [cut_append (hpoint hI) (beq_self_eq_true '.')]
      exact ⟨rfl, rfl, isDigitString_iff.mpr ⟨by simp [hne], hdigits⟩⟩
    | fraction hF hne =>
      have hcut : cut (· == '.') ('.' :: F) = ([], some F) :=
        cut_append (a := []) (fun c hc => nomatch hc) (beq_self_eq_true '.')
      rw [hcut]
      exact ⟨rfl, rfl, isDigitString_iff.mpr ⟨hne, hdigits⟩⟩
  · rintro ⟨rfl, rfl, h⟩
    obtain ⟨hne, hd⟩ := isDigitString_iff.mp h
    rcases cut_cases (· == '.') m with hcut | ⟨a, c, b, rfl, hc, hcut⟩
    · rw [hcut] at hne hd ⊢
      simp only [Option.getD_none, List.append_nil] at hne hd ⊢
      exact .whole hd hne
    · rw [hcut] at hne hd ⊢
      simp only [Option.getD_some] at hne hd ⊢
      rw [beq_iff_eq] at hc
      subst hc
      have ha : IsDigits a := fun x hx => hd x (List.mem_append_left b hx)
      have hb : IsDigits b := fun x hx => hd x (List.mem_append_right a hx)
      by_cases hnil : a = []
      · subst hnil
        exact .fraction hb (by simpa using hne)
      · exact .pointed ha hnil hb

namespace Decimal

theorem isExponentMark_iff {c : Char} : isExponentMark c = true ↔ c = 'e' ∨ c = 'E' := by
  simp [isExponentMark]

theorem exponent_iff {cs : List Char} {e : ℤ} {a : List Char} :
    ((cut isExponentMark cs).1 = a ∧ readExponent? (cut isExponentMark cs).2 = some e) ↔
      (∀ c ∈ a, isExponentMark c = false) ∧ ∃ x, cs = a ++ x ∧ Exponent x e := by
  constructor
  · rintro ⟨rfl, he⟩
    have hbefore : ∀ c ∈ (cut isExponentMark cs).1, isExponentMark c = false := by
      intro c hc
      simpa using List.mem_takeWhile_imp hc
    refine ⟨hbefore, ?_⟩
    rcases cut_cases isExponentMark cs with hcut | ⟨a, c, b, rfl, hc, hcut⟩
    · rw [hcut] at he ⊢
      obtain rfl : 0 = e := Option.some.inj he
      exact ⟨[], (List.append_nil cs).symm, .absent⟩
    · rw [hcut] at he ⊢
      have hb : SignedInteger b e := readInteger?_eq_some_iff.mp he
      rcases isExponentMark_iff.mp hc with rfl | rfl
      · exact ⟨_, rfl, .lower hb⟩
      · exact ⟨_, rfl, .upper hb⟩
  · rintro ⟨ha, x, rfl, hx⟩
    cases hx with
    | absent =>
      rw [List.append_nil, cut_of_forall ha]
      exact ⟨rfl, rfl⟩
    | lower h =>
      rw [cut_append ha rfl]
      exact ⟨rfl, readInteger?_eq_some_iff.mpr h⟩
    | upper h =>
      rw [cut_append ha rfl]
      exact ⟨rfl, readInteger?_eq_some_iff.mpr h⟩

theorem isZero_iff {d : Decimal} : d.isZero = true ↔ ∀ c ∈ d.whole ++ d.fraction, c = '0' := by
  simp only [isZero, digits, List.all_eq_true, beq_iff_eq]

theorem isAdmitted_iff {d : Decimal} : d.isAdmitted = true ↔ Admitted d := by
  have habs : d.exponent.natAbs ≤ maxExponent ↔ |d.exponent| ≤ 10000 := by
    rw [Int.abs_eq_natAbs, maxExponent]
    omega
  rw [isAdmitted, Bool.or_eq_true, isZero_iff, decide_eq_true_eq, Admitted, habs]

/-- The parts that the reader takes from a decimal are those that it is written with. -/
theorem writtenDecimal_iff {cs : List Char} {d : Decimal} :
    WrittenDecimal cs d ↔ ∃ m, splitSign (cut isExponentMark cs).1 = (d.negative, m) ∧
      Mantissa m d.whole d.fraction ∧
      readExponent? (cut isExponentMark cs).2 = some d.exponent := by
  constructor
  · rintro ⟨sign, m, x, rfl, hs, hm, hx⟩
    have hmark : ∀ c ∈ sign ++ m, isExponentMark c = false := by
      intro c hc
      rw [Bool.eq_false_iff, Ne, isExponentMark_iff, not_or]
      exact ⟨hs.ne_append hm hc (by decide), hs.ne_append hm hc (by decide)⟩
    obtain ⟨hcut, he⟩ := exponent_iff.mpr ⟨hmark, x, rfl, hx⟩
    refine ⟨m, ?_, hm, he⟩
    rw [hcut]
    apply splitSign_append hs
    intro c hc
    rcases hm.mem hc with h | rfl
    · constructor <;> rintro rfl <;> exact absurd h (by decide)
    · decide
  · rintro ⟨m, hsplit, hm, he⟩
    obtain ⟨-, x, hcs, hx⟩ := exponent_iff.mp ⟨rfl, he⟩
    obtain ⟨sign, hs, ha⟩ := splitSign_spec (cut isExponentMark cs).1
    rw [hsplit] at hs ha
    exact ⟨sign, m, x, by rw [← ha, ← hcs], hs, hm, hx⟩

theorem read?_eq_some_iff {cs : List Char} {d : Decimal} :
    read? cs = some d ↔ WrittenDecimal cs d ∧ Admitted d := by
  rw [writtenDecimal_iff, ← isAdmitted_iff]
  simp only [mantissa_iff]
  constructor
  · intro h
    simp only [read?] at h
    split at h
    · next hdigits =>
      split at h
      · cases h
      · next e he =>
        split at h
        · next hadmitted =>
          obtain rfl := Option.some.inj h
          exact ⟨⟨_, rfl, ⟨rfl, rfl, hdigits⟩, he⟩, hadmitted⟩
        · cases h
    · cases h
  · rintro ⟨⟨m, hsplit, ⟨hI, hF, hdigits⟩, he⟩, hadmitted⟩
    simp only [read?, hsplit, hI, hF, if_pos hdigits, he]
    exact if_pos hadmitted

end Decimal

namespace Literal

theorem readFraction?_eq_some_iff {a b : List Char} {l : Literal} :
    readFraction? a b = some l ↔ ∃ n d, readInteger? (trim a) = some n ∧
      readInteger? (trim b) = some d ∧ d ≠ 0 ∧ l = .fraction n d := by
  constructor
  · intro h
    simp only [readFraction?] at h
    split at h
    · next n d hn hd =>
      split at h
      · cases h
      · next hne => exact ⟨n, d, hn, hd, hne, (Option.some.inj h).symm⟩
    · cases h
  · rintro ⟨n, d, hn, hd, hne, rfl⟩
    simp only [readFraction?, hn, hd, if_neg hne]

theorem read?_eq_some_iff {cs : List Char} {l : Literal} : read? cs = some l ↔ Written cs l := by
  have hbar : ∀ {a : List Char}, '/' ∉ a → ∀ c ∈ a, (c == '/') = false := by
    intro a ha c hc
    rw [beq_eq_false_iff_ne]
    rintro rfl
    exact ha hc
  constructor
  · intro h
    rcases cut_cases (· == '/') cs with hcut | ⟨A, c, B, rfl, hc, hcut⟩
    · simp only [read?, hcut] at h
      obtain ⟨d, hd, rfl⟩ := Option.map_eq_some_iff.mp h
      obtain ⟨hwritten, hadmitted⟩ := Decimal.read?_eq_some_iff.mp hd
      exact .decimal hwritten hadmitted
    · simp only [read?, hcut] at h
      obtain ⟨n, d, hn, hd, hne, rfl⟩ := readFraction?_eq_some_iff.mp h
      rw [beq_iff_eq] at hc
      subst hc
      exact .fraction ⟨A, B, _, _, rfl, isTrim_trim A, isTrim_trim B,
        readInteger?_eq_some_iff.mp hn, readInteger?_eq_some_iff.mp hd⟩ hne
  · intro h
    cases h with
    | fraction h hne =>
      obtain ⟨A, B, a, b, rfl, hA, hB, ha, hb⟩ := h
      have hcut : cut (· == '/') (A ++ '/' :: B) = (A, some B) :=
        cut_append (hbar (bar_not_mem_of_isTrim hA ha.bar_not_mem)) (beq_self_eq_true '/')
      simp only [read?, hcut]
      apply readFraction?_eq_some_iff.mpr
      refine ⟨_, _, ?_, ?_, hne, rfl⟩
      · rw [trim_eq_iff.mpr hA]
        exact readInteger?_eq_some_iff.mpr ha
      · rw [trim_eq_iff.mpr hB]
        exact readInteger?_eq_some_iff.mpr hb
    | decimal h hadmitted =>
      simp only [read?, cut_of_forall (hbar (h.bar_not_mem)),
        Decimal.read?_eq_some_iff.mpr ⟨h, hadmitted⟩]
      rfl

end Literal

end Collocation.Numeral
