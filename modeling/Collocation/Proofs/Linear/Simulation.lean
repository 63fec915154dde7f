import Collocation.Linear.PowerTable
import Collocation.Proofs.Arithmetic.Simulation
import Collocation.Proofs.Linear.Tabulation

/-!
# Linear systems in two arithmetics

Power tables and elimination in one arithmetic are the images of those in the other. Both runs
test the same entries for zero, so they pick the same pivots, skip the same rows and stop at the
same column. An elimination divides by its pivot only, and a pivot is never zero.
-/

set_option autoImplicit false

namespace Collocation

variable {m n : Type → Type} {α β : Type}

section Maps

variable (f : β → α)

def SquareMatrix.map (a : SquareMatrix β) : SquareMatrix α where
  dim := a.dim
  entries := a.entries.map f
  length_entries := by rw [List.length_map, a.length_entries]

theorem takeRows_map (width count : ℕ) (l : List β) :
    takeRows width count (l.map f) = (takeRows width count l).map (List.map f) := by
  induction count generalizing l with
  | zero => rfl
  | succ count ih =>
    rw [takeRows, takeRows, List.map_cons, ← List.map_take, ← List.map_drop, ih]

theorem SquareMatrix.toRows_map (a : SquareMatrix β) :
    (a.map f).toRows = a.toRows.map (List.map f) :=
  takeRows_map f a.dim a.dim a.entries

theorem augment_map (rows : List (List β)) (rhs : List β) :
    augment (rows.map (List.map f)) (rhs.map f) = (augment rows rhs).map (List.map f) := by
  simp only [augment, List.zipWith_map_left, List.zipWith_map_right, List.map_zipWith,
    List.map_append, List.map_cons, List.map_nil]

theorem getD_map_map (rows : List (List β)) (i : ℕ) :
    (rows.map (List.map f)).getD i [] = (rows.getD i []).map f :=
  List.getD_map rows [] (List.map f)

theorem exchange_map_rows {F : List β → List α} (hF : F [] = []) (rows : List (List β))
    (i j : ℕ) : exchange (rows.map F) i j = (exchange rows i j).map F := by
  have hrow : ∀ i, (rows.map F).getD i [] = F (rows.getD i []) := by
    intro i
    rw [← List.getD_map rows [] F, hF]
  rw [exchange, exchange, hrow, hrow, List.map_set, List.map_set]

theorem exchange_map (rows : List (List β)) (i j : ℕ) :
    exchange (rows.map (List.map f)) i j = (exchange rows i j).map (List.map f) :=
  exchange_map_rows List.map_nil rows i j

theorem powerGrid_map (xs : List β) :
    powerGrid (xs.map f) = (powerGrid xs).map (Prod.map f id) := by
  rw [powerGrid, powerGrid, List.map_flatMap, List.flatMap_map, List.length_map]
  simp only [List.map_map]
  rfl

end Maps

@[simp] theorem SquareMatrix.map_id (a : SquareMatrix α) : a.map id = a :=
  SquareMatrix.ext rfl (List.map_id a.entries)

theorem getD_exchange_left {rows : List (List α)} {c p : ℕ} (hc : c ≤ p)
    (hp : p < rows.length) : (exchange rows c p).getD c [] = rows.getD p [] := by
  by_cases h : c = p
  · subst h
    simp [exchange, hp]
  · simp [exchange, Ne.symm h, show c < rows.length by omega]

/-- The search ends at a row of the table, not above the diagonal, whose entry is not zero. -/
theorem Arithmetic.pivotRow?_spec {A : Arithmetic m α} {rows : List (List α)} {c p : ℕ}
    (h : A.pivotRow? rows c = some p) : c ≤ p ∧ p < rows.length ∧
      A.isZero ((rows.getD p []).getD c A.zero) = false := by
  obtain ⟨i, hi, rfl⟩ := Option.map_eq_some_iff.mp h
  obtain ⟨hlt, hne, -⟩ := List.findIdx?_eq_some_iff_getElem.mp hi
  have hlen : c + i < rows.length := by
    rw [List.length_drop] at hlt
    omega
  rw [List.getElem_drop] at hne
  refine ⟨Nat.le_add_right c i, hlen, ?_⟩
  rw [List.getD_eq_getElem rows [] hlen]
  simpa using hne

theorem Arithmetic.isZero_pivot {A : Arithmetic m α} {rows : List (List α)} {c p : ℕ}
    (h : A.pivotRow? rows c = some p) :
    A.isZero (((exchange rows c p).getD c []).getD c A.zero) = false := by
  obtain ⟨hc, hlen, hne⟩ := pivotRow?_spec h
  rwa [getD_exchange_left hc hlen]

variable [Monad m] [Monad n]

namespace EffectRelation

variable {γ δ σ τ : Type} {g : δ → γ} {e : τ → σ}

theorem mapSized (R : EffectRelation m n) {F : σ → m γ} {G : τ → n δ}
    (h : ∀ t, R.Image g (F (e t)) (G t)) (l : List τ) :
    R.Image (fun r : { r : List δ // r.length = l.length } =>
      (⟨r.val.map g, by simp [r.property]⟩ : { r : List γ // r.length = (l.map e).length }))
      (mapSized F (l.map e)) (mapSized G l) := by
  induction l with
  | nil => exact R.pure _ (⟨[], rfl⟩ : { r : List δ // r.length = 0 })
  | cons t l ih =>
    apply R.bind (h t)
    intro d
    apply R.bind ih
    intro r
    exact R.pure _ (⟨d :: r.val, by simp [r.property]⟩ :
      { r : List δ // r.length = (t :: l).length })

end EffectRelation

namespace Simulates

variable {R : EffectRelation m n} {f : β → α} {A : Arithmetic m α} {B : Arithmetic n β}

theorem powerTable (h : Simulates R f A B) (xs : List β) :
    R.Image (SquareMatrix.map f) (A.powerTable (xs.map f)) (B.powerTable xs) := by
  -- The matrix type mentions the grid, so it is replaced while it is still a variable.
  have htable : ∀ (grid : List (α × ℕ)) (d : ℕ), grid = (powerGrid xs).map (Prod.map f id) →
      d = xs.length → ∀ hlen : grid.length = d * d,
      R.Image (SquareMatrix.map f)
        (do
          let r ← mapSized (fun p => A.power p.1 p.2) grid
          Pure.pure ⟨d, r.val, r.property.trans hlen⟩)
        (B.powerTable xs) := by
    rintro _ _ rfl rfl hlen
    apply R.bind (R.mapSized (fun p => h.power p.1 p.2) (powerGrid xs))
    intro r
    exact R.pure (SquareMatrix.map f) ⟨xs.length, r.val, r.property.trans (length_powerGrid xs)⟩
  exact htable _ _ (powerGrid_map f xs) (List.length_map f) (length_powerGrid (xs.map f))

theorem getD_eq (h : Simulates R f A B) (row : List β) (c : ℕ) :
    (row.map f).getD c A.zero = f (row.getD c B.zero) := by
  rw [h.zero_eq, List.getD_map]

theorem pivotRow?_eq (h : Simulates R f A B) (rows : List (List β)) (c : ℕ) :
    A.pivotRow? (rows.map (List.map f)) c = B.pivotRow? rows c := by
  rw [Arithmetic.pivotRow?, Arithmetic.pivotRow?, ← List.map_drop, List.findIdx?_map]
  simp only [Function.comp_def, h.getD_eq, h.isZero_eq]

theorem subtractMultiple (h : Simulates R f A B) (factor : β) (entries : β × β) :
    R.Image f (A.subtractMultiple (f factor) (Prod.map f f entries))
      (B.subtractMultiple factor entries) :=
  R.bind (h.mul factor entries.2) fun product => h.sub entries.1 product

variable [LawfulMonad m] [LawfulMonad n]

theorem scaleRow (h : Simulates R f A B) {row : List β} {c : ℕ}
    (hp : B.isZero (row.getD c B.zero) = false) :
    R.Image (List.map f) (A.scaleRow c (row.map f)) (B.scaleRow c row) := by
  rw [Arithmetic.scaleRow, h.getD_eq, ← List.map_drop, ← List.map_take]
  apply R.bind (R.mapM fun b _ => h.div b _ hp)
  intro tail
  rw [← List.map_append]
  exact R.pure (List.map f) (row.take c ++ tail)

theorem clearRow (h : Simulates R f A B) (c : ℕ) (pivot row : List β) :
    R.Image (List.map f) (A.clearRow c (pivot.map f) (row.map f)) (B.clearRow c pivot row) := by
  rw [Arithmetic.clearRow, Arithmetic.clearRow, h.getD_eq, h.isZero_eq]
  cases hz : B.isZero (row.getD c B.zero) with
  | true => exact R.pure (List.map f) row
  | false =>
    simp only [Bool.false_eq_true, if_false]
    rw [← List.map_drop, ← List.map_drop, ← List.map_take, List.zip_map]
    apply R.bind (R.mapM fun entries _ => h.subtractMultiple _ entries)
    intro tail
    rw [← List.map_append]
    exact R.pure (List.map f) (row.take c ++ tail)

theorem eliminate (h : Simulates R f A B) {rows : List (List β)} {c p : ℕ}
    (hp : B.pivotRow? rows c = some p) :
    R.Image (List.map (List.map f)) (A.eliminate (rows.map (List.map f)) c p)
      (B.eliminate rows c p) := by
  -- Quotients are related for divisors that are not zero, which the search has seen to.
  rw [Arithmetic.eliminate, Arithmetic.eliminate, exchange_map, getD_map_map, List.zipIdx_map]
  apply R.bind (h.scaleRow (Arithmetic.isZero_pivot hp))
  intro pivot
  apply R.mapM
  intro row _
  by_cases hr : row.2 = c
  · simp only [Prod.map_snd, id_eq, if_pos hr]
    exact R.pure (List.map f) pivot
  · simp only [Prod.map_snd, id_eq, if_neg hr]
    exact h.clearRow c pivot row.1

theorem clearColumn (h : Simulates R f A B) (rows : List (List β)) (c : ℕ) :
    R.withRejections.Image (List.map (List.map f)) (A.clearColumn (rows.map (List.map f)) c)
      (B.clearColumn rows c) := by
  rw [Arithmetic.clearColumn, Arithmetic.clearColumn, h.pivotRow?_eq]
  cases hp : B.pivotRow? rows c with
  | none => exact R.throw _ _
  | some p => exact EffectRelation.liftM (h.eliminate hp)

theorem reduce (h : Simulates R f A B) (rows : List (List β)) (k : ℕ) :
    R.withRejections.Image (List.map (List.map f)) (A.reduce (rows.map (List.map f)) k)
      (B.reduce rows k) := by
  induction k with
  | zero => exact R.withRejections.pure (List.map (List.map f)) rows
  | succ k ih => exact R.withRejections.bind ih fun reduced => h.clearColumn reduced k

theorem solve (h : Simulates R f A B) (a : SquareMatrix β) (rhs : List β) :
    R.withRejections.Image (List.map f) (A.solve (a.map f) (rhs.map f)) (B.solve a rhs) := by
  rw [Arithmetic.solve, Arithmetic.solve, a.toRows_map, augment_map, List.length_map]
  by_cases hl : rhs.length = a.dim
  · have hl' : rhs.length = (a.map f).dim := hl
    rw [if_pos hl, if_pos hl']
    apply R.withRejections.bind (h.reduce _ _)
    intro rows
    have hlast : (rows.map (List.map f)).map (fun row => row.getD (a.map f).dim A.zero) =
        (rows.map fun row => row.getD a.dim B.zero).map f := by
      simp only [List.map_map, Function.comp_def, h.getD_eq]
      rfl
    rw [hlast]
    exact R.withRejections.pure (List.map f) _
  · have hl' : ¬ rhs.length = (a.map f).dim := hl
    rw [if_neg hl, if_neg hl']
    exact R.throw _ _

end Simulates

end Collocation
