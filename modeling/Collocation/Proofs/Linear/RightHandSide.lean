import Collocation.Proofs.Arithmetic.Simulation
import Collocation.Proofs.Linear.Simulation
import Collocation.Proofs.Outcome

/-!
# The right-hand side does not choose pivots

The right-hand side stands at the end of the rows and is worked on together with them. Cutting
it off commutes with every step of the elimination, whatever the operations of the number type
are, as long as none of them traps. So pivots, and the column that has none, are those of the
elimination of the matrix alone.
-/

set_option autoImplicit false

namespace Collocation

variable {α σ γ : Type} {c n : ℕ}

def whenCompleted : EffectRelation (Except Trap) (Except Trap) where
  Image g x y := ∀ d, y = .ok d → x = .ok (g d)
  pure g d := by
    intro d' h
    rw [← Except.ok.inj h]
    rfl
  bind {_ _ _ _ _ _ _ y _ _} hx hk := by
    cases y with
    | ok d =>
      rw [hx d rfl]
      exact hk d
    | error t =>
      intro d h
      cases h

namespace whenCompleted

theorem refl (x : Except Trap γ) : whenCompleted.Image id x x := fun _ h => h

theorem mapM_take (F : σ → Except Trap γ) (k : ℕ) (l : List σ) :
    whenCompleted.Image (List.take k) ((l.take k).mapM F) (l.mapM F) := by
  induction l generalizing k with
  | nil =>
    have hnil := whenCompleted.pure (List.take k) ([] : List γ)
    rw [List.take_nil] at hnil ⊢
    exact hnil
  | cons s l ih =>
    cases k with
    | zero =>
      intro d _
      rfl
    | succ k =>
      rw [List.take_succ_cons, List.mapM_cons, List.mapM_cons]
      apply whenCompleted.bind (refl (F s))
      intro b
      apply whenCompleted.bind (ih k)
      intro bs
      exact whenCompleted.pure (List.take (k + 1)) (b :: bs)

theorem take_append (hc : c ≤ n) (row : List γ) {l : List σ} (hl : l ≠ [] → c ≤ row.length)
    (F : σ → Except Trap γ) :
    whenCompleted.Image (List.take n)
      (do let tail ← (l.take (n - c)).mapM F
          pure (row.take c ++ tail))
      (do let tail ← l.mapM F
          pure (row.take c ++ tail)) := by
  by_cases hnil : l = []
  · subst hnil
    have hfront : ((row.take c) ++ []).take n = row.take c ++ [] := by
      rw [List.append_nil, List.take_take, Nat.min_eq_right hc]
    have hpure := whenCompleted.pure (List.take n) (row.take c ++ [])
    rw [hfront] at hpure
    rw [List.take_nil]
    exact hpure
  · apply whenCompleted.bind (mapM_take F (n - c) l)
    intro tail
    have hfront : (row.take c ++ tail).take n = row.take c ++ tail.take (n - c) := by
      rw [List.take_append, List.take_take, Nat.min_eq_right hc, List.length_take,
        Nat.min_eq_left (hl hnil)]
    rw [← hfront]
    exact whenCompleted.pure (List.take n) _

end whenCompleted

theorem getD_take (hc : c < n) (row : List α) (d : α) : (row.take n).getD c d = row.getD c d := by
  simp [hc]

theorem length_le_of_drop_ne_nil {row : List α} (h : row.drop c ≠ []) : c ≤ row.length := by
  by_contra hlt
  exact h (List.drop_eq_nil_of_le (by omega))

theorem map_take_augment {rows : List (List α)} {rhs : List α} (hl : rhs.length = rows.length)
    (hn : ∀ row ∈ rows, row.length = n) : (augment rows rhs).map (List.take n) = rows := by
  apply List.ext_getElem
  · simp [augment, hl]
  · intro r hr hr'
    simp [augment, hn _ (List.getElem_mem hr')]

namespace Arithmetic

section Cut

variable (A : Arithmetic (Except Trap) α)

theorem pivotRow?_take (hc : c < n) (rows : List (List α)) :
    A.pivotRow? (rows.map (List.take n)) c = A.pivotRow? rows c := by
  rw [pivotRow?, pivotRow?, ← List.map_drop, List.findIdx?_map]
  simp only [Function.comp_def, getD_take hc]

theorem scaleRow_take (hc : c < n) (row : List α) :
    whenCompleted.Image (List.take n) (A.scaleRow c (row.take n)) (A.scaleRow c row) := by
  rw [scaleRow, scaleRow, getD_take hc, List.drop_take, List.take_take, Nat.min_eq_left hc.le]
  exact whenCompleted.take_append hc.le row length_le_of_drop_ne_nil _

theorem clearRow_take (hc : c < n) (pivot row : List α) :
    whenCompleted.Image (List.take n) (A.clearRow c (pivot.take n) (row.take n))
      (A.clearRow c pivot row) := by
  rw [clearRow, clearRow, getD_take hc]
  cases hz : A.isZero (row.getD c A.zero) with
  | true => exact whenCompleted.pure (List.take n) row
  | false =>
    have hzip : (row.drop c).zip (pivot.drop c) ≠ [] → c ≤ row.length := by
      intro h
      apply length_le_of_drop_ne_nil
      intro hnil
      exact h (by rw [hnil, List.zip_nil_left])
    simp only [Bool.false_eq_true, if_false]
    rw [List.drop_take, List.drop_take, List.zip_eq_zipWith, ← List.take_zipWith,
      ← List.zip_eq_zipWith, List.take_take, Nat.min_eq_left hc.le]
    exact whenCompleted.take_append hc.le row hzip _

theorem eliminate_take (hc : c < n) (rows : List (List α)) (p : ℕ) :
    whenCompleted.Image (List.map (List.take n)) (A.eliminate (rows.map (List.take n)) c p)
      (A.eliminate rows c p) := by
  rw [eliminate, eliminate, exchange_map_rows List.take_nil, List.zipIdx_map]
  have hrow : ((exchange rows c p).map (List.take n)).getD c [] =
      ((exchange rows c p).getD c []).take n := by
    rw [← List.getD_map _ _ (List.take n), List.take_nil]
  rw [hrow]
  apply whenCompleted.bind (A.scaleRow_take hc _)
  intro pivot
  apply whenCompleted.mapM
  intro row _
  by_cases hr : row.2 = c
  · simp only [Prod.map_snd, id_eq, if_pos hr]
    exact whenCompleted.pure (List.take n) pivot
  · simp only [Prod.map_snd, id_eq, if_neg hr]
    exact A.clearRow_take hc pivot row.1

theorem clearColumn_take (hc : c < n) (rows : List (List α)) :
    whenCompleted.withRejections.Image (List.map (List.take n))
      (A.clearColumn (rows.map (List.take n)) c) (A.clearColumn rows c) := by
  rw [clearColumn, clearColumn, A.pivotRow?_take hc]
  cases A.pivotRow? rows c with
  | none => exact whenCompleted.throw _ _
  | some p => exact EffectRelation.liftM (A.eliminate_take hc rows p)

/-- Elimination of the first `n` columns does not look beyond them. -/
theorem reduce_take (rows : List (List α)) {k : ℕ} (hk : k ≤ n) :
    whenCompleted.withRejections.Image (List.map (List.take n))
      (A.reduce (rows.map (List.take n)) k) (A.reduce rows k) := by
  induction k with
  | zero => exact whenCompleted.withRejections.pure (List.map (List.take n)) rows
  | succ k ih =>
    exact whenCompleted.withRejections.bind (ih (by omega)) fun reduced =>
      A.clearColumn_take hk reduced

end Cut

variable {A : Arithmetic (Except Trap) α} {a : SquareMatrix α} {rhs : List α}

theorem reduce_of_trap {rows : List (List α)} {t : Trap} (h : A.reduce rows c = .error t) {k : ℕ}
    (hk : c ≤ k) : A.reduce rows k = .error t := by
  induction k, hk using Nat.le_induction with
  | base => exact h
  | succ k _ ih =>
    rw [reduce, ih]
    rfl

theorem exists_reduce_of_solve (hl : rhs.length = a.dim) (hrun : ∃ r, A.solve a rhs = .ok r)
    (hc : c ≤ a.dim) : ∃ r, A.reduce (augment a.toRows rhs) c = .ok r := by
  obtain ⟨r, hr⟩ := hrun
  cases hred : A.reduce (augment a.toRows rhs) c with
  | ok r' => exact ⟨r', rfl⟩
  | error t =>
    rw [solve, if_pos hl, reduce_of_trap hred hc] at hr
    cases hr

theorem reduce_toRows (hl : rhs.length = a.dim) (hc : c ≤ a.dim)
    {r : Except Rejection (List (List α))} (h : A.reduce (augment a.toRows rhs) c = .ok r) :
    A.reduce a.toRows c = .ok (r.map (List.map (List.take a.dim))) := by
  have hcut := A.reduce_take (augment a.toRows rhs) hc
  rw [map_take_augment (by rw [hl, a.length_toRows]) a.length_of_mem_toRows] at hcut
  exact hcut r h

theorem solve_eq_singular_iff_matrix (hl : rhs.length = a.dim)
    (hrun : ∃ r, A.solve a rhs = .ok r) (k : ℕ) :
    A.solve a rhs = throw (.singular k) ↔ A.reduce a.toRows a.dim = throw (.singular k) := by
  obtain ⟨r, hr⟩ := exists_reduce_of_solve hl hrun (le_refl _)
  rw [reduce_toRows hl (le_refl _) hr, solve, if_pos hl, hr]
  cases r with
  | error e =>
    change (throw e : ExceptT Rejection (Except Trap) (List α)) = throw (.singular k) ↔
      (throw e : ExceptT Rejection (Except Trap) (List (List α))) = throw (.singular k)
    rw [throw_inj, throw_inj]
  | ok rows => exact iff_of_false (pure_ne_throw _ _) (pure_ne_throw _ _)

def TakesPivot (A : Arithmetic (Except Trap) α) (rows : List (List α)) (c p : ℕ) : Prop :=
  ∃ reduced, A.reduce rows c = pure reduced ∧ A.pivotRow? reduced c = some p

theorem takesPivot_of_reduced {rows reduced : List (List α)} (h : A.reduce rows c = pure reduced)
    (p : ℕ) : A.TakesPivot rows c p ↔ A.pivotRow? reduced c = some p := by
  rw [TakesPivot, h]
  simp only [pure_inj, exists_eq_left']

theorem not_takesPivot_of_refused {rows : List (List α)} {e : Rejection}
    (h : A.reduce rows c = throw e) (p : ℕ) : ¬ A.TakesPivot rows c p := by
  rintro ⟨reduced, hreduced, -⟩
  exact throw_ne_pure e reduced (h.symm.trans hreduced)

theorem takesPivot_iff_matrix (hl : rhs.length = a.dim) (hrun : ∃ r, A.solve a rhs = .ok r)
    (hc : c < a.dim) (p : ℕ) :
    A.TakesPivot (augment a.toRows rhs) c p ↔ A.TakesPivot a.toRows c p := by
  obtain ⟨r, hr⟩ := exists_reduce_of_solve hl hrun hc.le
  have hcut := reduce_toRows hl hc.le hr
  cases r with
  | error e => exact iff_of_false (not_takesPivot_of_refused hr p) (not_takesPivot_of_refused hcut p)
  | ok reduced =>
    rw [takesPivot_of_reduced hr, takesPivot_of_reduced hcut, A.pivotRow?_take hc]

/-- The solver divides by what it has found not to be zero, so it always answers. -/
theorem IsTotal.exists_solve (h : A.IsTotal) (a : SquareMatrix α) (rhs : List α) :
    ∃ r, A.solve a rhs = .ok r :=
  (h.simulates.solve a rhs).imp fun _ hr => hr.2

end Arithmetic

/-- Whether a system is refused, at which column, and from which rows the pivots are taken does
not depend on the right-hand side. No law of the operations is needed, only that they have
results, or at least that neither of the two runs traps. -/
theorem pivots_independent_of_rhs (A : Arithmetic (Except Trap) α) (a : SquareMatrix α)
    (b₁ b₂ : List α) (h₁ : b₁.length = a.dim) (h₂ : b₂.length = a.dim)
    (hrun : A.IsTotal ∨ (∃ r, A.solve a b₁ = .ok r) ∧ ∃ r, A.solve a b₂ = .ok r) :
    (∀ k, A.solve a b₁ = throw (.singular k) ↔ A.solve a b₂ = throw (.singular k)) ∧
      ∀ c < a.dim, ∀ p,
        A.TakesPivot (augment a.toRows b₁) c p ↔ A.TakesPivot (augment a.toRows b₂) c p := by
  have hruns : (∃ r, A.solve a b₁ = .ok r) ∧ ∃ r, A.solve a b₂ = .ok r := by
    rcases hrun with htotal | hruns
    · exact ⟨htotal.exists_solve a b₁, htotal.exists_solve a b₂⟩
    · exact hruns
  constructor
  · intro k
    rw [Arithmetic.solve_eq_singular_iff_matrix h₁ hruns.1,
      Arithmetic.solve_eq_singular_iff_matrix h₂ hruns.2]
  · intro c hc p
    rw [Arithmetic.takesPivot_iff_matrix h₁ hruns.1 hc,
      Arithmetic.takesPivot_iff_matrix h₂ hruns.2 hc]

/-- Two 64-bit runs without overflow that exchange rows and are refused at the last column, and
a matrix of doubles. -/
theorem pivots_independent_of_rhs_refused :
    ([5, 6, 7] : List Int64).length = 3 ∧ ([0, 0, 1] : List Int64).length = 3 ∧
      int64.solve ⟨3, [0, 2, 2, 1, 1, 2, 3, 0, 3], rfl⟩ [5, 6, 7] = throw (.singular 2) ∧
      int64.solve ⟨3, [0, 2, 2, 1, 1, 2, 3, 0, 3], rfl⟩ [0, 0, 1] = throw (.singular 2) ∧
      (∀ p, int64.TakesPivot (augment [[0, 2, 2], [1, 1, 2], [3, 0, 3]] [5, 6, 7]) 0 p ↔
        int64.TakesPivot (augment [[0, 2, 2], [1, 1, 2], [3, 0, 3]] [0, 0, 1]) 0 p) ∧
      ∀ k, double.solve ⟨2, [0.1, 0.2, 0.3, 0.6], rfl⟩ [1, 2] = throw (.singular k) ↔
        double.solve ⟨2, [0.1, 0.2, 0.3, 0.6], rfl⟩ [0, 0] = throw (.singular k) := by
  have hrun : int64.solve ⟨3, [0, 2, 2, 1, 1, 2, 3, 0, 3], rfl⟩ [5, 6, 7] =
      throw (.singular 2) := rfl
  have hother : ∃ r, int64.solve ⟨3, [0, 2, 2, 1, 1, 2, 3, 0, 3], rfl⟩ [0, 0, 1] = .ok r :=
    ⟨_, rfl⟩
  have h := pivots_independent_of_rhs int64 ⟨3, [0, 2, 2, 1, 1, 2, 3, 0, 3], rfl⟩ [5, 6, 7]
    [0, 0, 1] rfl rfl (Or.inr ⟨⟨_, hrun⟩, hother⟩)
  have hdouble := pivots_independent_of_rhs double ⟨2, [0.1, 0.2, 0.3, 0.6], rfl⟩ [1, 2] [0, 0]
    rfl rfl (Or.inl Arithmetic.double_isTotal)
  exact ⟨rfl, rfl, hrun, (h.1 2).mp hrun, h.2 0 (by decide), hdouble.1⟩

end Collocation
