import Collocation.Arithmetic.Basic
import Collocation.Rejection

/-!
# Outcomes of a run

A run that may be rejected or trapped ends in a result, in a rejection, or in a trap. The
first two are told apart here, and a rejection ends every run that it occurs in. What a
sequence of computations that may trap results in is said by its members.
-/

set_option autoImplicit false

namespace Collocation

variable {β γ : Type}

@[simp] theorem throw_bind {m : Type → Type} [Monad m] [LawfulMonad m] (e : Rejection)
    (k : β → ExceptT Rejection m γ) : (throw e : ExceptT Rejection m β) >>= k = throw e := by
  apply ExceptT.ext
  rw [ExceptT.run_bind, ExceptT.run_throw, pure_bind]
  rfl

@[simp] theorem pure_inj {b b' : β} :
    (pure b : ExceptT Rejection (Except Trap) β) = pure b' ↔ b = b' := by
  constructor
  · intro h
    exact Except.ok.inj (Except.ok.inj h)
  · rintro rfl
    rfl

@[simp] theorem throw_inj {e e' : Rejection} :
    (throw e : ExceptT Rejection (Except Trap) β) = throw e' ↔ e = e' := by
  constructor
  · intro h
    exact Except.error.inj (Except.ok.inj h)
  · intro h
    rw [h]

@[simp] theorem throw_ne_pure (e : Rejection) (b : β) :
    (throw e : ExceptT Rejection (Except Trap) β) ≠ pure b := by
  intro h
  cases Except.ok.inj h

@[simp] theorem pure_ne_throw (b : β) (e : Rejection) :
    (pure b : ExceptT Rejection (Except Trap) β) ≠ throw e :=
  (throw_ne_pure e b).symm

section Continuations

variable {x : ExceptT Rejection (Except Trap) β} {k : β → ExceptT Rejection (Except Trap) γ}

theorem outcome_cases (x : ExceptT Rejection (Except Trap) β) :
    (∃ t, x = .error t) ∨ (∃ e, x = throw e) ∨ ∃ b, x = pure b := by
  rcases x with t | e | b
  · exact Or.inl ⟨t, rfl⟩
  · exact Or.inr (Or.inl ⟨e, rfl⟩)
  · exact Or.inr (Or.inr ⟨b, rfl⟩)

theorem bind_eq_pure_iff {c : γ} : x >>= k = pure c ↔ ∃ b, x = pure b ∧ k b = pure c := by
  rcases outcome_cases x with ⟨t, rfl⟩ | ⟨e, rfl⟩ | ⟨b, rfl⟩
  · constructor
    · intro h
      cases h
    · rintro ⟨b, hb, -⟩
      cases hb
  · simp
  · simp

/-- A rejection comes from the first computation or, once that has a result, from the second. -/
theorem bind_eq_throw_iff {e : Rejection} :
    x >>= k = throw e ↔ x = throw e ∨ ∃ b, x = pure b ∧ k b = throw e := by
  rcases outcome_cases x with ⟨t, rfl⟩ | ⟨e', rfl⟩ | ⟨b, rfl⟩
  · constructor
    · intro h
      cases h
    · rintro (h | ⟨b, hb, -⟩)
      · cases h
      · cases hb
  · simp
  · simp

theorem liftM_ne_throw (y : Except Trap β) (e : Rejection) :
    (liftM y : ExceptT Rejection (Except Trap) β) ≠ throw e := by
  intro h
  cases y with
  | error t => cases h
  | ok b => exact pure_ne_throw b e h

theorem liftM_bind_eq_throw_iff {y : Except Trap β} {e : Rejection} :
    liftM y >>= k = throw e ↔ ∃ b, y = .ok b ∧ k b = throw e := by
  cases y with
  | error t =>
    constructor
    · intro h
      cases h
    · rintro ⟨b, hb, -⟩
      cases hb
  | ok b =>
    constructor
    · intro h
      exact ⟨b, rfl, h⟩
    · rintro ⟨b', hb, hk⟩
      rwa [← Except.ok.inj hb] at hk

end Continuations

section Sequences

variable {σ : Type} {F G : σ → Except Trap γ} {l : List σ}

theorem bind_eq_ok_iff {x : Except Trap β} {k : β → Except Trap γ} {c : γ} :
    x >>= k = .ok c ↔ ∃ b, x = .ok b ∧ k b = .ok c := by
  cases x with
  | error t =>
    constructor
    · intro h
      cases h
    · rintro ⟨b, hb, -⟩
      cases hb
  | ok b =>
    constructor
    · intro h
      exact ⟨b, rfl, h⟩
    · rintro ⟨b', hb, hk⟩
      rwa [Except.ok.inj hb]

theorem mapM_congr (h : ∀ s ∈ l, F s = G s) : l.mapM F = l.mapM G := by
  induction l with
  | nil => rfl
  | cons s l ih =>
    rw [List.mapM_cons, List.mapM_cons, h s (by simp), ih fun t ht => h t (by simp [ht])]

theorem mapM_eq_ok_map {g : σ → γ} (h : ∀ s ∈ l, F s = .ok (g s)) : l.mapM F = .ok (l.map g) :=
  (mapM_congr h).trans List.mapM_pure

theorem mapM_cons_eq_ok_iff {s : σ} {r : List γ} :
    (s :: l).mapM F = .ok r ↔ ∃ c cs, F s = .ok c ∧ l.mapM F = .ok cs ∧ r = c :: cs := by
  rw [List.mapM_cons]
  simp only [bind_eq_ok_iff]
  constructor
  · rintro ⟨c, hc, cs, hcs, hr⟩
    exact ⟨c, cs, hc, hcs, (Except.ok.inj hr).symm⟩
  · rintro ⟨c, cs, hc, hcs, rfl⟩
    exact ⟨c, hc, cs, hcs, rfl⟩

theorem length_of_mapM {r : List γ} (h : l.mapM F = .ok r) : r.length = l.length := by
  induction l generalizing r with
  | nil =>
    rw [← Except.ok.inj h]
    rfl
  | cons s l ih =>
    obtain ⟨c, cs, -, hcs, rfl⟩ := mapM_cons_eq_ok_iff.mp h
    rw [List.length_cons, List.length_cons, ih hcs]

theorem getElem_of_mapM {r : List γ} (h : l.mapM F = .ok r) {i : Nat} (hl : i < l.length)
    (hr : i < r.length) : F l[i] = .ok r[i] := by
  induction l generalizing r i with
  | nil => exact absurd hl (Nat.not_lt_zero i)
  | cons s l ih =>
    obtain ⟨c, cs, hc, hcs, rfl⟩ := mapM_cons_eq_ok_iff.mp h
    cases i with
    | zero => exact hc
    | succ i => exact ih hcs _ _

end Sequences

end Collocation
