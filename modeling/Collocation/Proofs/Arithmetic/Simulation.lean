import Collocation.Arithmetic.Machine
import Collocation.Proofs.Arithmetic.Exactness
import Collocation.Rejection
import Mathlib.Data.List.GetD

/-!
# One computation in two arithmetics

Every algorithm of this library is written over a record of operations and an effect. If the
operations of one arithmetic are the images of those of another, the algorithms are so too,
whatever the effects are. What an image is has to be said only for the effects: a relation that
holds of pure computations and is passed on by sequencing. A quotient has to be related only
where the divisor is not zero.
-/

set_option autoImplicit false

namespace Collocation

/-- A notion of one computation being the image of another one along a function on results. -/
structure EffectRelation (m n : Type → Type) [Monad m] [Monad n] where
  Image : {γ δ : Type} → (δ → γ) → m γ → n δ → Prop
  pure {γ δ : Type} (g : δ → γ) (d : δ) : Image g (pure (g d)) (pure d)
  bind {γ δ γ' δ' : Type} {g : δ → γ} {g' : δ' → γ'} {x : m γ} {y : n δ} {k : γ → m γ'}
    {l : δ → n δ'} (hx : Image g x y) (hk : ∀ d, Image g' (k (g d)) (l d)) :
    Image g' (x >>= k) (y >>= l)

namespace EffectRelation

variable {m n : Type → Type} [Monad m] [Monad n] {γ δ σ τ : Type} {g : δ → γ} {e : τ → σ}

def withRejections (R : EffectRelation m n) :
    EffectRelation (ExceptT Rejection m) (ExceptT Rejection n) where
  Image g x y := R.Image (Except.map g) x.run y.run
  pure g d := R.pure (Except.map g) (.ok d)
  bind {_ _ _ _ _ g'} _ _ _ _ hx hk := by
    apply R.bind hx
    intro r
    cases r with
    | ok d => exact hk d
    | error e => exact R.pure (Except.map g') (.error e)

theorem throw (R : EffectRelation m n) (g : δ → γ) (e : Rejection) :
    R.withRejections.Image g (throw e) (throw e) :=
  R.pure (Except.map g) (.error e)

theorem liftM [LawfulMonad m] [LawfulMonad n] {R : EffectRelation m n} {x : m γ} {y : n δ}
    (h : R.Image g x y) :
    R.withRejections.Image g (liftM x : ExceptT Rejection m γ) (liftM y) := by
  change R.Image (Except.map g) (Except.ok <$> x) (Except.ok <$> y)
  rw [map_eq_pure_bind, map_eq_pure_bind]
  exact R.bind h fun d => R.pure (Except.map g) (.ok d)

theorem mapM [LawfulMonad m] [LawfulMonad n] (R : EffectRelation m n) {F : σ → m γ}
    {G : τ → n δ} {l : List τ} (h : ∀ t ∈ l, R.Image g (F (e t)) (G t)) :
    R.Image (List.map g) ((l.map e).mapM F) (l.mapM G) := by
  induction l with
  | nil => exact R.pure (List.map g) []
  | cons t l ih =>
    rw [List.map_cons, List.mapM_cons, List.mapM_cons]
    apply R.bind (h t (by simp))
    intro d
    apply R.bind (ih fun s hs => h s (by simp [hs]))
    intro ds
    exact R.pure (List.map g) (d :: ds)

theorem foldlM (R : EffectRelation m n) {F : γ → σ → m γ} {G : δ → τ → n δ}
    (h : ∀ d t, R.Image g (F (g d) (e t)) (G d t)) (d : δ) (l : List τ) :
    R.Image g ((l.map e).foldlM F (g d)) (l.foldlM G d) := by
  induction l generalizing d with
  | nil => exact R.pure g d
  | cons t l ih =>
    rw [List.map_cons, List.foldlM_cons, List.foldlM_cons]
    exact R.bind (h d t) ih

end EffectRelation

variable {m n : Type → Type} [Monad m] [Monad n] {α β : Type}

structure Simulates (R : EffectRelation m n) (f : β → α) (A : Arithmetic m α)
    (B : Arithmetic n β) : Prop where
  zero_eq : A.zero = f B.zero
  one_eq : A.one = f B.one
  isZero_eq (b : β) : A.isZero (f b) = B.isZero b
  add (a b : β) : R.Image f (A.add (f a) (f b)) (B.add a b)
  sub (a b : β) : R.Image f (A.sub (f a) (f b)) (B.sub a b)
  mul (a b : β) : R.Image f (A.mul (f a) (f b)) (B.mul a b)
  div (a b : β) (hb : B.isZero b = false) : R.Image f (A.div (f a) (f b)) (B.div a b)

namespace Simulates

variable {R : EffectRelation m n} {f : β → α} {A : Arithmetic m α} {B : Arithmetic n β}

/-- Both runs halve the same exponent, so they take the same branches. -/
theorem raise (h : Simulates R f A B) (acc base : β) (e : ℕ) :
    R.Image f (A.raise (f acc) (f base) e) (B.raise acc base e) := by
  induction e using Nat.strongRecOn generalizing acc base with
  | ind e ih =>
    rw [Arithmetic.raise.eq_def A, Arithmetic.raise.eq_def B]
    by_cases he : e ≤ 1
    · rw [if_pos he, if_pos he]
      exact R.pure f acc
    · rw [if_neg he, if_neg he]
      have hlt : e / 2 < e := by omega
      apply R.bind (h.mul base base)
      intro square
      by_cases hodd : e / 2 % 2 = 1
      · simp only [if_pos hodd]
        exact R.bind (h.mul acc square) fun acc => ih _ hlt acc square
      · simp only [if_neg hodd]
        exact R.bind (R.pure f acc) fun acc => ih _ hlt acc square

theorem power (h : Simulates R f A B) (base : β) (e : ℕ) :
    R.Image f (A.power (f base) e) (B.power base e) := by
  induction e using Nat.strongRecOn generalizing base with
  | ind e ih =>
    rw [Arithmetic.power.eq_def A, Arithmetic.power.eq_def B]
    by_cases h0 : e = 0
    · rw [if_pos h0, if_pos h0, h.one_eq]
      exact R.pure f B.one
    rw [if_neg h0, if_neg h0]
    by_cases heven : e % 2 = 0
    · rw [if_pos heven, if_pos heven]
      exact R.bind (h.mul base base) fun square => ih _ (by omega) square
    · rw [if_neg heven, if_neg heven]
      exact h.raise base base e

theorem addTerm (h : Simulates R f A B) (x acc : β) (term : β × ℕ) :
    R.Image f (A.addTerm (f x) (f acc) (Prod.map f id term)) (B.addTerm x acc term) := by
  apply R.bind (h.power x term.2)
  intro power
  apply R.bind (h.mul term.1 power)
  intro product
  exact h.add acc product

theorem evaluateAt (h : Simulates R f A B) (x : β) (cs : List β) :
    R.Image f (A.evaluateAt (f x) (cs.map f)) (B.evaluateAt x cs) := by
  rw [Arithmetic.evaluateAt, List.zipIdx_map, h.zero_eq]
  exact R.foldlM (h.addTerm x) B.zero cs.zipIdx

theorem evaluate [LawfulMonad m] [LawfulMonad n] (h : Simulates R f A B) (xs cs : List β) :
    R.Image (List.map f) (A.evaluate (xs.map f) (cs.map f)) (B.evaluate xs cs) :=
  R.mapM fun x _ => h.evaluateAt x cs

end Simulates

/-! An arithmetic is total if none of its operations traps, unless the divisor is zero. No law has
to hold for the results. Exact numbers are total, and so are doubles. A computation that only
divides by what it has found not to be zero always has a result. -/

def bothAnswer : EffectRelation (Except Trap) (Except Trap) where
  Image g x y := ∃ d, x = .ok (g d) ∧ y = .ok d
  pure g d := ⟨d, rfl, rfl⟩
  bind hx hk := by
    obtain ⟨d, rfl, rfl⟩ := hx
    exact hk d

namespace Arithmetic

variable {α : Type} {A : Arithmetic (Except Trap) α}

structure IsTotal (A : Arithmetic (Except Trap) α) : Prop where
  add (a b : α) : ∃ c, A.add a b = .ok c
  sub (a b : α) : ∃ c, A.sub a b = .ok c
  mul (a b : α) : ∃ c, A.mul a b = .ok c
  div (a b : α) (hb : A.isZero b = false) : ∃ c, A.div a b = .ok c

theorem IsExact.isTotal [CommRing α] {quot : α → α → α} (h : A.IsExact quot) : A.IsTotal where
  add a b := ⟨_, h.add_eq a b⟩
  sub a b := ⟨_, h.sub_eq a b⟩
  mul a b := ⟨_, h.mul_eq a b⟩
  div a b hb := ⟨_, h.div_eq a b (h.ne_zero hb)⟩

theorem double_isTotal : double.IsTotal where
  add _ _ := ⟨_, rfl⟩
  sub _ _ := ⟨_, rfl⟩
  mul _ _ := ⟨_, rfl⟩
  div _ _ _ := ⟨_, rfl⟩

theorem IsTotal.simulates (h : A.IsTotal) : Simulates bothAnswer id A A where
  zero_eq := rfl
  one_eq := rfl
  isZero_eq _ := rfl
  add a b := (h.add a b).imp fun _ hc => ⟨hc, hc⟩
  sub a b := (h.sub a b).imp fun _ hc => ⟨hc, hc⟩
  mul a b := (h.mul a b).imp fun _ hc => ⟨hc, hc⟩
  div a b hb := (h.div a b hb).imp fun _ hc => ⟨hc, hc⟩

end Arithmetic

end Collocation
