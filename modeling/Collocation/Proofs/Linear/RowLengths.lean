import Collocation.Proofs.Linear.Elimination
import Collocation.Proofs.Linear.Simulation
import Collocation.Proofs.Outcome

/-!
# Lengths of rows in a run

Elimination moves rows, replaces them and leaves their lengths alone. A run on a system of `n`
equations works on `n` rows of `n + 1` entries at every stage, so the solution has `n` entries,
and nothing but a missing pivot can refuse a system whose right-hand side has the right length.
-/

set_option autoImplicit false

namespace Collocation

variable {m : Type → Type} {α : Type}

@[simp] theorem length_exchange (rows : List (List α)) (i j : ℕ) :
    (exchange rows i j).length = rows.length := by
  rw [exchange, List.length_set, List.length_set]

theorem mem_of_mem_exchange {rows : List (List α)} {i j : ℕ} (hi : i < rows.length)
    (hj : j < rows.length) {row : List α} (h : row ∈ exchange rows i j) : row ∈ rows := by
  have hmem : ∀ k < rows.length, rows.getD k [] ∈ rows := by
    intro k hk
    rw [List.getD_eq_getElem _ _ hk]
    exact List.getElem_mem hk
  rcases List.mem_or_eq_of_mem_set h with hset | rfl
  · rcases List.mem_or_eq_of_mem_set hset with hrow | rfl
    · exact hrow
    · exact hmem j hj
  · exact hmem i hi

structure HasShape (n w : ℕ) (rows : List (List α)) : Prop where
  length_eq : rows.length = n
  width_eq (row : List α) (h : row ∈ rows) : row.length = w

theorem hasShape_tabulate (n w : ℕ) (g : ℕ → ℕ → α) : HasShape n w (tabulate n w g) where
  length_eq := length_tabulate n w g
  width_eq row hrow := by
    obtain ⟨r, -, rfl⟩ := List.mem_map.mp hrow
    simp

theorem length_of_mem_augment (a : SquareMatrix α) (rhs : List α) :
    ∀ row ∈ augment a.toRows rhs, row.length = a.dim + 1 := by
  intro row hrow
  obtain ⟨i, hi, rfl⟩ := List.mem_iff_getElem.mp hrow
  simp [augment, a.length_of_mem_toRows]

theorem hasShape_augment (a : SquareMatrix α) {rhs : List α} (hl : rhs.length = a.dim) :
    HasShape a.dim (a.dim + 1) (augment a.toRows rhs) where
  length_eq := by simp [augment, hl]
  width_eq := length_of_mem_augment a rhs

theorem HasShape.after_exchange {n w i j : ℕ} {rows : List (List α)} (h : HasShape n w rows)
    (hi : i < n) (hj : j < n) : HasShape n w (exchange rows i j) := by
  obtain ⟨rfl, hw⟩ := h
  exact ⟨length_exchange rows i j, fun row hrow => hw row (mem_of_mem_exchange hi hj hrow)⟩

namespace Arithmetic

variable {A : Arithmetic (Except Trap) α} {c p : ℕ} {rows rows' : List (List α)}

theorem length_of_scaleRow {row row' : List α} (hr : A.scaleRow c row = .ok row') :
    row'.length = row.length := by
  obtain ⟨tail, htail, hrow⟩ := bind_eq_ok_iff.mp hr
  have hlen := length_of_mapM htail
  rw [← Except.ok.inj hrow, List.length_append, hlen, List.length_take, List.length_drop]
  omega

theorem length_of_clearRow {pivot row row' : List α} (hl : row.length = pivot.length)
    (hr : A.clearRow c pivot row = .ok row') : row'.length = row.length := by
  rw [clearRow] at hr
  cases hfactor : A.isZero (row.getD c A.zero) with
  | true =>
    simp only [hfactor, if_true] at hr
    rw [Except.ok.inj hr]
  | false =>
    simp only [hfactor, Bool.false_eq_true, if_false] at hr
    obtain ⟨tail, htail, hrow⟩ := bind_eq_ok_iff.mp hr
    have hlen := length_of_mapM htail
    rw [← Except.ok.inj hrow, List.length_append, hlen]
    simp only [List.length_take, List.length_zip, List.length_drop]
    omega

theorem eliminate_eq_ok (he : A.eliminate rows c p = .ok rows') :
    ∃ pivot, A.scaleRow c ((exchange rows c p).getD c []) = .ok pivot ∧
      rows'.length = rows.length ∧
      ∀ (i : ℕ) (hi : i < (exchange rows c p).length) (hi' : i < rows'.length),
        if i = c then rows'[i] = pivot
        else A.clearRow c pivot (exchange rows c p)[i] = .ok rows'[i] := by
  obtain ⟨pivot, hs, hrows⟩ := bind_eq_ok_iff.mp he
  have hlen := length_of_mapM hrows
  rw [List.length_zipIdx, length_exchange] at hlen
  refine ⟨pivot, hs, hlen, ?_⟩
  intro i hi hi'
  have hrow := getElem_of_mapM hrows (by rwa [List.length_zipIdx]) hi'
  rw [List.getElem_zipIdx, Nat.zero_add] at hrow
  by_cases hic : i = c
  · rw [if_pos hic]
    rw [if_pos hic] at hrow
    exact (Except.ok.inj hrow).symm
  · rw [if_neg hic]
    rwa [if_neg hic] at hrow

theorem exists_eliminate_of_clearColumn (hr : A.clearColumn rows c = pure rows') :
    ∃ p, A.pivotRow? rows c = some p ∧ A.eliminate rows c p = .ok rows' := by
  cases hp : A.pivotRow? rows c with
  | none =>
    rw [clearColumn_of_none hp] at hr
    exact absurd hr (throw_ne_pure _ _)
  | some p =>
    refine ⟨p, rfl, ?_⟩
    cases he : A.eliminate rows c p with
    | error t =>
      simp only [clearColumn, hp, he] at hr
      cases hr
    | ok rows'' =>
      rw [clearColumn_of_some hp he] at hr
      rw [pure_inj.mp hr]

theorem reduce_eq_throw {k : ℕ} {e : Rejection} (hr : A.reduce rows k = throw e) :
    ∃ c < k, e = .singular c := by
  induction k with
  | zero => exact absurd hr (pure_ne_throw rows e)
  | succ k ih =>
    rcases bind_eq_throw_iff.mp hr with hbefore | ⟨reduced, -, hnow⟩
    · obtain ⟨c, hc, he⟩ := ih hbefore
      exact ⟨c, Nat.lt_succ_of_lt hc, he⟩
    · refine ⟨k, Nat.lt_succ_self k, ?_⟩
      cases hp : A.pivotRow? reduced k with
      | none =>
        rw [clearColumn_of_none hp, throw_inj] at hnow
        exact hnow.symm
      | some p =>
        simp only [clearColumn, hp] at hnow
        exact absurd hnow (liftM_ne_throw _ e)

theorem solve_eq_throw {a : SquareMatrix α} {rhs : List α} {e : Rejection}
    (hl : rhs.length = a.dim) (hr : A.solve a rhs = throw e) : ∃ c < a.dim, e = .singular c := by
  rw [solve, if_pos hl] at hr
  rcases bind_eq_throw_iff.mp hr with hreduce | ⟨rows, -, hlast⟩
  · exact reduce_eq_throw hreduce
  · exact absurd hlast (pure_ne_throw _ e)

end Arithmetic

section Shape

variable {A : Arithmetic (Except Trap) α} {n w c p : ℕ} {rows rows' : List (List α)}

/-- The pivot row is as long as any other row, so subtracting it shortens none. -/
theorem HasShape.eliminate (h : HasShape n w rows) (hp : A.pivotRow? rows c = some p)
    (he : A.eliminate rows c p = .ok rows') : HasShape n w rows' := by
  obtain ⟨hc, hplt, -⟩ := Arithmetic.pivotRow?_spec hp
  obtain ⟨pivot, hs, hlen, hrows⟩ := Arithmetic.eliminate_eq_ok he
  have hpn : p < n := by rwa [← h.length_eq]
  have hex := h.after_exchange (Nat.lt_of_le_of_lt hc hpn) hpn
  have hpivot : pivot.length = w := by
    rw [Arithmetic.length_of_scaleRow hs, List.getD_eq_getElem _ _ (by rw [hex.length_eq]; omega)]
    exact hex.width_eq _ (List.getElem_mem _)
  refine ⟨hlen.trans h.length_eq, ?_⟩
  intro row hrow
  obtain ⟨i, hi, rfl⟩ := List.mem_iff_getElem.mp hrow
  have hi' : i < (exchange rows c p).length := by rwa [length_exchange, ← hlen]
  have hstep := hrows i hi' hi
  have hwidth := hex.width_eq _ (List.getElem_mem hi')
  by_cases hic : i = c
  · rw [if_pos hic] at hstep
    rw [hstep, hpivot]
  · rw [if_neg hic] at hstep
    rw [Arithmetic.length_of_clearRow (hwidth.trans hpivot.symm) hstep, hwidth]

theorem HasShape.reduce (h : HasShape n w rows) {k : ℕ} (hr : A.reduce rows k = pure rows') :
    HasShape n w rows' := by
  induction k generalizing rows' with
  | zero => rwa [← pure_inj.mp hr]
  | succ k ih =>
    obtain ⟨reduced, hreduced, hcolumn⟩ := bind_eq_pure_iff.mp hr
    obtain ⟨p, hp, he⟩ := Arithmetic.exists_eliminate_of_clearColumn hcolumn
    exact (ih hreduced).eliminate hp he

theorem Arithmetic.length_of_solve {a : SquareMatrix α} {rhs c : List α}
    (hr : A.solve a rhs = pure c) : c.length = a.dim := by
  by_cases hl : rhs.length = a.dim
  · rw [solve, if_pos hl] at hr
    obtain ⟨reduced, hreduced, hlast⟩ := bind_eq_pure_iff.mp hr
    rw [← pure_inj.mp hlast, List.length_map]
    exact ((hasShape_augment a hl).reduce hreduced).length_eq
  · rw [solve_of_length_ne hl] at hr
    exact absurd hr (throw_ne_pure _ _)

end Shape

end Collocation
