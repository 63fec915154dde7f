import Collocation.Text.Characters
import Mathlib.Data.List.Basic
import Mathlib.Data.List.Chain
import Mathlib.Data.List.TakeWhile

/-!
# Trimmed and quoted text

The tables of blank and of concealed code points are in order: each range ends before the next
one begins, so a character lies in one range of a table at most.

Trimming is described without naming the characters that it looks at: blanks are taken off both
ends, and what is left neither begins nor ends with one. Only one text has this property.
Quoting is described by what it leaves behind: a quoted text has no concealed character.
-/

set_option autoImplicit false

namespace Collocation.Text

def Precedes (r s : ℕ × ℕ) : Prop := r.1 ≤ r.2 ∧ r.2 < s.1 ∧ s.1 ≤ s.2

instance (r s : ℕ × ℕ) : Decidable (Precedes r s) := inferInstanceAs (Decidable (_ ∧ _))

instance : Trans Precedes Precedes Precedes where
  trans h g := ⟨h.1, h.2.1.trans (h.2.2.trans_lt g.2.1), g.2.2⟩

theorem blankRanges_pairwise : blankRanges.Pairwise Precedes :=
  List.IsChain.pairwise (by decide)

theorem concealedRanges_pairwise : concealedRanges.Pairwise Precedes :=
  List.IsChain.pairwise (by decide +kernel)

section Ranges

variable {ranges : List (ℕ × ℕ)} {r s : ℕ × ℕ} {n : ℕ}

theorem range_unique (h : ranges.Pairwise Precedes) (hr : r ∈ ranges) (hs : s ∈ ranges)
    (hrn : r.1 ≤ n ∧ n ≤ r.2) (hsn : s.1 ≤ n ∧ n ≤ s.2) : r = s := by
  obtain ⟨i, hi, rfl⟩ := List.mem_iff_getElem.mp hr
  obtain ⟨j, hj, rfl⟩ := List.mem_iff_getElem.mp hs
  have hdisjoint := List.pairwise_iff_getElem.mp h
  rcases Nat.lt_trichotomy i j with hij | rfl | hij
  · have hlt := (hdisjoint i j hi hj hij).2.1
    omega
  · rfl
  · have hlt := (hdisjoint j i hj hi hij).2.1
    omega

theorem any_range_iff (h : ranges.Pairwise Precedes) :
    (ranges.any fun r => r.1 ≤ n && n ≤ r.2) = true ↔
      ∃! r, r ∈ ranges ∧ r.1 ≤ n ∧ n ≤ r.2 := by
  simp only [List.any_eq_true, Bool.and_eq_true, decide_eq_true_eq]
  constructor
  · intro hany
    obtain ⟨r, hr, hn⟩ := hany
    exact ⟨r, ⟨hr, hn⟩, fun s hs => range_unique h hs.1 hr hs.2 hn⟩
  · intro hone
    obtain ⟨r, hr, -⟩ := hone
    exact ⟨r, hr⟩

end Ranges

theorem isBlank_iff (c : Char) :
    isBlank c = true ↔ ∃! r, r ∈ blankRanges ∧ r.1 ≤ c.toNat ∧ c.toNat ≤ r.2 :=
  any_range_iff blankRanges_pairwise

theorem isConcealed_iff (c : Char) :
    isConcealed c = true ↔ ∃! r, r ∈ concealedRanges ∧ r.1 ≤ c.toNat ∧ c.toNat ≤ r.2 :=
  any_range_iff concealedRanges_pairwise

example : (blankRanges.map fun r => r.2 + 1 - r.1).sum = 25 := rfl

section Trimming

variable {α : Type} {p : α → Bool} {l t : List α}

theorem head?_dropWhile {c : α} (h : (l.dropWhile p).head? = some c) : p c = false := by
  have hnot := List.head?_dropWhile_not p l
  rwa [h] at hnot

theorem dropWhile_append (hl : ∀ c ∈ l, p c = true) (ht : ∀ c, t.head? = some c → p c = false) :
    (l ++ t).dropWhile p = t := by
  rw [List.dropWhile_append_of_pos hl]
  cases t with
  | nil => rfl
  | cons a t => rw [List.dropWhile_cons, if_neg (Bool.eq_false_iff.mp (ht a rfl))]

structure IsTrim (cs t : List Char) : Prop where
  split : ∃ before after, cs = before ++ t ++ after ∧ (∀ c ∈ before, isBlank c = true) ∧
    ∀ c ∈ after, isBlank c = true
  head (c : Char) (h : t.head? = some c) : isBlank c = false
  last (c : Char) (h : t.getLast? = some c) : isBlank c = false

theorem isTrim_trim (cs : List Char) : IsTrim cs (trim cs) := by
  have hleft : cs.takeWhile isBlank ++ trimLeft cs = cs := List.takeWhile_append_dropWhile
  have hright : trim cs ++ ((trimLeft cs).reverse.takeWhile isBlank).reverse = trimLeft cs := by
    have hsplit := congrArg List.reverse
      (List.takeWhile_append_dropWhile (p := isBlank) (l := (trimLeft cs).reverse))
    rwa [List.reverse_append, List.reverse_reverse] at hsplit
  refine ⟨⟨cs.takeWhile isBlank, ((trimLeft cs).reverse.takeWhile isBlank).reverse, ?_, ?_, ?_⟩,
    ?_, ?_⟩
  · rw [List.append_assoc, hright, hleft]
  · intro c hc
    exact List.mem_takeWhile_imp hc
  · intro c hc
    exact List.mem_takeWhile_imp (List.mem_reverse.mp hc)
  · intro c hc
    have hhead : (trimLeft cs).head? = some c := by
      rw [← hright, List.head?_append, hc, Option.some_or]
    exact head?_dropWhile hhead
  · intro c hc
    rw [trim, trimRight, List.getLast?_reverse] at hc
    exact head?_dropWhile hc

theorem trim_eq_iff {cs t : List Char} : trim cs = t ↔ IsTrim cs t := by
  constructor
  · rintro rfl
    exact isTrim_trim cs
  · rintro ⟨⟨before, after, rfl, hbefore, hafter⟩, hhead, hlast⟩
    -- Without a character that is kept, the first pass takes the blanks of both ends.
    by_cases hnil : t = []
    · subst hnil
      have hall : ∀ c ∈ before ++ [] ++ after, isBlank c = true := by
        intro c hc
        rcases List.mem_append.mp hc with h | h
        · exact hbefore c (by simpa using h)
        · exact hafter c h
      rw [trim, trimLeft, List.dropWhile_eq_nil_iff.mpr hall]
      rfl
    · have hleft : trimLeft (before ++ t ++ after) = t ++ after := by
        rw [List.append_assoc, trimLeft]
        apply dropWhile_append hbefore
        intro c hc
        apply hhead
        rwa [List.head?_append_of_ne_nil t hnil] at hc
      have hright : trimLeft (t ++ after).reverse = t.reverse := by
        rw [List.reverse_append, trimLeft]
        apply dropWhile_append
        · intro c hc
          exact hafter c (List.mem_reverse.mp hc)
        · intro c hc
          apply hlast
          rwa [List.head?_reverse] at hc
      rw [trim, hleft, trimRight, hright, List.reverse_reverse]

end Trimming

section Quoting

def IsPrintable (c : Char) : Prop := 0x20 ≤ c.toNat ∧ c.toNat < 0x7F

instance (c : Char) : Decidable (IsPrintable c) := inferInstanceAs (Decidable (_ ∧ _))

/-- The first two ranges stand around the printable characters, and the others begin later. -/
theorem IsPrintable.not_isConcealed {c : Char} (h : IsPrintable c) : isConcealed c = false := by
  have hsplit : concealedRanges = (0x0, 0x1F) :: (0x7F, 0xA0) :: concealedRanges.drop 2 := rfl
  have horder := concealedRanges_pairwise
  rw [hsplit, List.pairwise_cons, List.pairwise_cons] at horder
  obtain ⟨-, hlater, -⟩ := horder
  obtain ⟨hlow, hhigh⟩ := h
  rw [isConcealed, hsplit, List.any_eq_false]
  intro r hr hc
  rw [Bool.and_eq_true, decide_eq_true_eq, decide_eq_true_eq] at hc
  rcases List.mem_cons.mp hr with rfl | hr
  · omega
  rcases List.mem_cons.mp hr with rfl | hr
  · omega
  · have hlt := (hlater r hr).2.1
    omega

theorem exists_digitChar_of_mem_toDigits {b : ℕ} (hb : 1 < b) {n : ℕ} {c : Char}
    (h : c ∈ Nat.toDigits b n) : ∃ d < b, c = d.digitChar := by
  induction n using Nat.strong_induction_on with
  | _ n ih =>
    rw [Nat.toDigits_eq_if hb] at h
    by_cases hn : n < b
    · rw [if_pos hn] at h
      exact ⟨n, hn, List.mem_singleton.mp h⟩
    · rw [if_neg hn] at h
      rcases List.mem_append.mp h with hc | hc
      · exact ih (n / b) (Nat.div_lt_self (by omega) hb) hc
      · exact ⟨n % b, Nat.mod_lt n (by omega), List.mem_singleton.mp hc⟩

theorem isPrintable_of_mem_hexDigits {n : ℕ} {c : Char} (h : c ∈ hexDigits n) :
    IsPrintable c := by
  have hall : ∀ d < 16, IsPrintable (Nat.digitChar d) := by decide
  obtain ⟨d, hd, rfl⟩ := exists_digitChar_of_mem_toDigits (by decide) h
  exact hall d hd

theorem not_isConcealed_of_mem_quotedChar {c x : Char} (h : x ∈ quotedChar c) :
    isConcealed x = false := by
  let marks : List Char := ['\\', '0', 't', 'r', 'n', '"', 'u', '\x7b', '\x7d']
  have hall : marks.all (fun x => IsPrintable x) = true := by decide
  have hmarks : ∀ cs, cs ⊆ marks → x ∈ cs → isConcealed x = false := fun cs hcs hx =>
    (of_decide_eq_true (List.all_eq_true.mp hall x (hcs hx))).not_isConcealed
  -- The escapes come first and the code point in braces last, as in the definition.
  unfold quotedChar at h
  split at h
  case h_7 =>
    by_cases hc : isConcealed c = true
    · rw [if_pos hc, List.mem_append, List.mem_append] at h
      rcases h with (h | h) | h
      · exact hmarks _ (by decide) h
      · exact (isPrintable_of_mem_hexDigits h).not_isConcealed
      · exact hmarks _ (by decide) h
    · rw [if_neg hc, List.mem_singleton] at h
      rw [h]
      exact Bool.eq_false_iff.mpr hc
  all_goals exact hmarks _ (by decide) h

/-- A quoted text shows every character that stands in it. -/
theorem not_isConcealed_of_mem_quoted {s : String} {c : Char} (h : c ∈ (quoted s).toList) :
    isConcealed c = false := by
  have hquote : isConcealed '"' = false := IsPrintable.not_isConcealed (by decide)
  rw [quoted, String.toList_ofList] at h
  simp only [List.mem_cons, List.mem_append, List.mem_flatMap, List.not_mem_nil, or_false] at h
  rcases h with rfl | ⟨x, -, hx⟩ | rfl
  · exact hquote
  · exact not_isConcealed_of_mem_quotedChar hx
  · exact hquote

end Quoting

end Collocation.Text
