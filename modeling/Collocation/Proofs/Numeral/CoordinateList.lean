import Collocation.Proofs.Numeral.Coordinate
import Mathlib.Data.List.Forall2

/-!
# Lists of coordinates

A text names the number that it denotes, whatever blanks stand around it. A list of texts is
read if each of them names a number, and is refused at its first text that is refused. Reading
two lists one after the other is reading them as one.
-/

set_option autoImplicit false

namespace Collocation

open Text

namespace Coordinate

variable {s : String} {ss ts : List String} {q : ℚ} {qs : List ℚ} {r : Rejection}

def Names (s : String) (q : ℚ) : Prop := ∃ t, IsTrim s.toList t ∧ Denotes t q

theorem read_eq_ok_iff_names : read s = .ok q ↔ Names s q := by
  rw [read_eq_ok_iff]
  constructor
  · intro h
    obtain ⟨l, hl, hq⟩ := h
    obtain ⟨t, ht, hwritten⟩ := literal?_eq_some_iff.mp hl
    exact ⟨t, ht, denotes_iff.mpr ⟨l, hwritten, hq⟩⟩
  · intro h
    obtain ⟨t, ht, hden⟩ := h
    obtain ⟨l, hwritten, hq⟩ := denotes_iff.mp hden
    exact ⟨l, literal?_eq_some_iff.mpr ⟨t, ht, hwritten⟩, hq⟩

theorem read_of_refused (h : ¬ ∃ q, read s = .ok q) : read s = .error (.invalidCoordinate s) := by
  cases hl : literal? s with
  | none => exact read_of_none hl
  | some l => exact absurd ⟨_, read_of_some hl⟩ h

theorem readAll_cons_of_ok (h : read s = .ok q) :
    readAll (s :: ss) = (readAll ss).map (q :: ·) := by
  rw [readAll, List.mapM_cons, h]
  rfl

theorem readAll_cons_of_error (h : read s = .error r) : readAll (s :: ss) = .error r := by
  rw [readAll, List.mapM_cons, h]
  rfl

theorem readAll_append (ss ts : List String) :
    readAll (ss ++ ts) = do
      let us ← readAll ss
      let vs ← readAll ts
      return us ++ vs :=
  List.mapM_append

theorem readAll_append_eq_error_iff : readAll (ss ++ ts) = .error r ↔
    readAll ss = .error r ∨ ∃ us, readAll ss = .ok us ∧ readAll ts = .error r := by
  rw [readAll_append]
  cases readAll ss with
  | error r' => simp [bind, Except.bind]
  | ok us => cases readAll ts <;> simp [bind, Except.bind, pure, Except.pure]

theorem readAll_append_eq_ok_iff : readAll (ss ++ ts) = .ok qs ↔
    ∃ us vs, readAll ss = .ok us ∧ readAll ts = .ok vs ∧ us ++ vs = qs := by
  rw [readAll_append]
  cases readAll ss with
  | error r => simp [bind, Except.bind]
  | ok us => cases readAll ts <;> simp [bind, Except.bind, pure, Except.pure]

theorem readAll_eq_ok_iff : readAll ss = .ok qs ↔ List.Forall₂ Names ss qs := by
  induction ss generalizing qs with
  | nil =>
    rw [List.forall₂_nil_left_iff]
    constructor
    · intro h
      exact (Except.ok.inj h).symm
    · intro h
      rw [h]
      rfl
  | cons s ss ih =>
    rw [List.forall₂_cons_left_iff]
    cases hs : read s with
    | error r =>
      rw [readAll_cons_of_error hs]
      constructor
      · intro h
        cases h
      · intro h
        obtain ⟨q, us, hq, -⟩ := h
        rw [← read_eq_ok_iff_names, hs] at hq
        cases hq
    | ok q =>
      rw [readAll_cons_of_ok hs]
      have hname : ∀ q', Names s q' ↔ q = q' := by
        intro q'
        rw [← read_eq_ok_iff_names, hs, Except.ok.injEq]
      simp only [hname, ← ih]
      cases readAll ss with
      | error r => simp [Except.map]
      | ok us => simp [Except.map, eq_comm]

theorem readAll_of_first_refused {before after : List String} (split : ss = before ++ s :: after)
    (accepted : ∀ t ∈ before, ∃ q, read t = .ok q) (refused : ¬ ∃ q, read s = .ok q) :
    readAll ss = .error (.invalidCoordinate s) := by
  subst split
  induction before with
  | nil => exact readAll_cons_of_error (read_of_refused refused)
  | cons t before ih =>
    obtain ⟨q, hq⟩ := accepted t (by simp)
    rw [List.cons_append, readAll_cons_of_ok hq, ih fun u hu => accepted u (by simp [hu])]
    rfl

theorem exists_first_refused (h : readAll ss = .error r) :
    ∃ before s after, ss = before ++ s :: after ∧ (∀ t ∈ before, ∃ q, read t = .ok q) ∧
      ¬ ∃ q, read s = .ok q := by
  induction ss generalizing r with
  | nil => cases h
  | cons s ss ih =>
    cases hs : read s with
    | error r' => exact ⟨[], s, ss, rfl, by simp, by simp [hs]⟩
    | ok q =>
      rw [readAll_cons_of_ok hs] at h
      cases hss : readAll ss with
      | ok us =>
        rw [hss] at h
        cases h
      | error r' =>
        obtain ⟨before, t, after, rfl, haccepted, hrefused⟩ := ih hss
        exact ⟨s :: before, t, after, rfl, by simpa [hs] using haccepted, hrefused⟩

end Coordinate

end Collocation
