import Collocation.Proofs.Arithmetic.Simulation
import Collocation.Proofs.Outcome

/-!
# Computations with a record of their steps

A recorded computation keeps every operation that it performed together with the result, in the
order in which they were performed. Any arithmetic can be run with a record. The record is kept
beside the computation and never read by it, so leaving it out gives the same outcome.
-/

set_option autoImplicit false

namespace Collocation

structure Step (α : Type) where
  op : Operation
  result : α
  deriving DecidableEq, Repr

structure Recorded (α β : Type) where
  steps : List (Step α)
  outcome : Except Trap β

namespace Recorded

variable {α β γ : Type}

def andThen (x : Recorded α β) (k : β → Recorded α γ) : Recorded α γ :=
  match x.outcome with
  | .ok b => ⟨x.steps ++ (k b).steps, (k b).outcome⟩
  | .error t => ⟨x.steps, .error t⟩

instance : Monad (Recorded α) where
  pure b := ⟨[], .ok b⟩
  bind := andThen

theorem pure_eq (b : β) : (pure b : Recorded α β) = ⟨[], .ok b⟩ := rfl

theorem ok_bind (steps : List (Step α)) (b : β) (k : β → Recorded α γ) :
    (⟨steps, .ok b⟩ >>= k : Recorded α γ) = ⟨steps ++ (k b).steps, (k b).outcome⟩ := rfl

theorem error_bind (steps : List (Step α)) (t : Trap) (k : β → Recorded α γ) :
    (⟨steps, .error t⟩ >>= k : Recorded α γ) = ⟨steps, .error t⟩ := rfl

theorem bind_pure (x : Recorded α β) : x >>= pure = x := by
  obtain ⟨steps, outcome⟩ := x
  cases outcome with
  | ok b => rw [ok_bind, pure_eq, List.append_nil]
  | error t => rw [error_bind]

theorem bind_assoc {δ : Type} (x : Recorded α β) (k : β → Recorded α γ) (l : γ → Recorded α δ) :
    x >>= k >>= l = x >>= fun b => k b >>= l := by
  obtain ⟨steps, outcome⟩ := x
  cases outcome with
  | error t => simp only [error_bind]
  | ok b =>
    rw [ok_bind, ok_bind]
    cases hk : k b with
    | mk steps' outcome' =>
      cases outcome' with
      | ok c => rw [ok_bind, ok_bind, List.append_assoc]
      | error t => rw [error_bind, error_bind]

instance : LawfulMonad (Recorded α) :=
  LawfulMonad.mk' (Recorded α) bind_pure (fun _ _ => rfl) bind_assoc

def perform (op : Operation) : Except Trap α → Recorded α α
  | .ok a => ⟨[⟨op, a⟩], .ok a⟩
  | .error t => ⟨[], .error t⟩

theorem outcome_perform (op : Operation) (r : Except Trap α) : (perform op r).outcome = r := by
  cases r <;> rfl

def forget (α : Type) : EffectRelation (Except Trap) (Recorded α) where
  Image g x y := x = y.outcome.map g
  pure _ _ := rfl
  bind {_ _ _ _ _ _ x y k l} hx hk := by
    obtain ⟨steps, outcome⟩ := y
    cases outcome with
    | ok d =>
      rw [hx, ok_bind]
      exact hk d
    | error t =>
      rw [hx, error_bind]
      rfl

theorem outcome_eq_of_forget {g : β → β} (hg : g = id) {x : Except Trap β} {y : Recorded α β}
    (h : (forget α).Image g x y) : y.outcome = x := by
  subst hg
  change x = y.outcome.map id at h
  rw [h, Except.map_id]
  rfl

theorem outcome_eq_of_forget_rejections {g : β → β} (hg : g = id)
    {x : ExceptT Rejection (Except Trap) β} {y : ExceptT Rejection (Recorded α) β}
    (h : (forget α).withRejections.Image g x y) : y.run.outcome = x := by
  apply outcome_eq_of_forget _ h
  rw [hg]
  exact Except.map_id

end Recorded

namespace Arithmetic

variable {α : Type}

def recorded (A : Arithmetic (Except Trap) α) : Arithmetic (Recorded α) α where
  zero := A.zero
  one := A.one
  isZero := A.isZero
  add a b := .perform .add (A.add a b)
  sub a b := .perform .subtract (A.sub a b)
  mul a b := .perform .multiply (A.mul a b)
  div a b := .perform .divide (A.div a b)

theorem simulates_recorded (A : Arithmetic (Except Trap) α) :
    Simulates (Recorded.forget α) id A A.recorded := by
  have hperform : ∀ (op : Operation) (r : Except Trap α),
      r = (Recorded.perform op r).outcome.map id := by
    intro op r
    rw [Recorded.outcome_perform, Except.map_id]
    rfl
  exact ⟨rfl, rfl, fun _ => rfl, fun a b => hperform .add (A.add a b),
    fun a b => hperform .subtract (A.sub a b), fun a b => hperform .multiply (A.mul a b),
    fun a b _ => hperform .divide (A.div a b)⟩

end Arithmetic

end Collocation
