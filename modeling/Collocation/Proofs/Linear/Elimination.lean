import Collocation.Proofs.Arithmetic.Exactness
import Collocation.Proofs.Linear.Tabulation
import Collocation.Proofs.Outcome
import Mathlib.Logic.Equiv.Basic

/-!
# Elimination on tables

In exact arithmetic one column of the elimination is a formula on entries: two rows trade
places, the pivot row is divided, and a multiple of it leaves every other row. `Reaches` records
the tables that a run passes through. A run ends either in the table after all columns or at a
column whose entries on and below the diagonal are all zero.
-/

set_option autoImplicit false

namespace Collocation

variable {α : Type}

def exchanged (f : ℕ → ℕ → α) (c p : ℕ) : ℕ → ℕ → α := fun r => f (Equiv.swap c p r)

@[simp] theorem exchanged_self (f : ℕ → ℕ → α) (c : ℕ) : exchanged f c c = f := by
  funext r
  rw [exchanged, Equiv.swap_self, Equiv.refl_apply]

def cleared [Ring α] (quot : α → α → α) (f : ℕ → ℕ → α) (c r k : ℕ) : α :=
  if k < c then f r k
  else if r = c then quot (f c k) (f c c)
  else f r k - f r c * quot (f c k) (f c c)

theorem cleared_self [Ring α] (quot : α → α → α) (f : ℕ → ℕ → α) (c : ℕ) :
    cleared quot f c c = fun k => if k < c then f c k else quot (f c k) (f c c) := by
  funext k
  rw [cleared, if_pos rfl]

theorem cleared_of_ne [Ring α] (quot : α → α → α) (f : ℕ → ℕ → α) {c r : ℕ} (hr : r ≠ c) :
    cleared quot f c r =
      fun k => if k < c then f r k else f r k - f r c * cleared quot f c c k := by
  funext k
  by_cases hk : k < c <;> simp [cleared, hk, hr]

structure IsPivot [Zero α] (n : ℕ) (f : ℕ → ℕ → α) (c p : ℕ) : Prop where
  le : c ≤ p
  lt : p < n
  ne_zero : f p c ≠ 0
  eq_zero (r : ℕ) (hc : c ≤ r) (hp : r < p) : f r c = 0

inductive Reaches [Ring α] (quot : α → α → α) (n : ℕ) (f : ℕ → ℕ → α) :
    ℕ → (ℕ → ℕ → α) → Prop where
  | start : Reaches quot n f 0 f
  | column {c p : ℕ} {g : ℕ → ℕ → α} (before : Reaches quot n f c g)
      (pivot : IsPivot n g c p) : Reaches quot n f (c + 1) (cleared quot (exchanged g c p) c)

theorem exchange_tabulate {n c p : ℕ} (hc : c < n) (hp : p < n) (m : ℕ) (f : ℕ → ℕ → α) :
    exchange (tabulate n m f) c p = tabulate n m (exchanged f c p) := by
  rw [exchange, getD_tabulate hc, getD_tabulate hp]
  apply eq_map_range
  · simp
  · intro r hr
    have hrn : r < n := by simpa using hr
    by_cases hrp : r = p
    · subst r
      simp [exchanged]
    by_cases hrc : r = c
    · subst r
      simp [exchanged, Ne.symm hrp]
    · simp [exchanged, tabulate, Equiv.swap_apply_of_ne_of_ne hrc hrp, Ne.symm hrc, Ne.symm hrp]

theorem take_map_range {c m : ℕ} (hc : c ≤ m) (g : ℕ → α) :
    ((List.range m).map g).take c = (List.range c).map g := by
  rw [← List.map_take, List.take_range, Nat.min_eq_left hc]

theorem drop_map_range (c m : ℕ) (g : ℕ → α) :
    ((List.range m).map g).drop c = (List.range (m - c)).map fun i => g (c + i) := by
  rw [← List.map_drop, List.range_eq_range', List.drop_range', List.range'_eq_map_range,
    List.map_map]
  simp [Function.comp_def, List.range_eq_range']

theorem append_map_range {c m : ℕ} (hc : c ≤ m) (g g' : ℕ → α) :
    (List.range c).map g ++ ((List.range (m - c)).map fun i => g' (c + i)) =
      (List.range m).map fun k => if k < c then g k else g' k := by
  apply eq_map_range
  · simp
    omega
  · intro k hk
    by_cases hkc : k < c
    · rw [List.getElem_append_left (by simpa using hkc)]
      simp [hkc]
    · rw [List.getElem_append_right (by simpa using hkc)]
      simp [hkc, show c + (k - c) = k by omega]

namespace Arithmetic

variable {A : Arithmetic (Except Trap) α}

theorem clearColumn_of_none {rows : List (List α)} {c : ℕ} (h : A.pivotRow? rows c = none) :
    A.clearColumn rows c = throw (.singular c) := by
  rw [clearColumn, h]

theorem clearColumn_of_some {rows rows' : List (List α)} {c p : ℕ}
    (hp : A.pivotRow? rows c = some p) (he : A.eliminate rows c p = .ok rows') :
    A.clearColumn rows c = pure rows' := by
  simp only [clearColumn, hp, he]
  rfl

theorem solve_of_length_ne {a : SquareMatrix α} {rhs : List α} (hl : rhs.length ≠ a.dim) :
    A.solve a rhs = throw (.dimensionMismatch a.dim rhs.length) := by
  rw [solve, if_neg hl]

variable [CommRing α] {quot : α → α → α}

theorem IsExact.pivotRow?_tabulate_eq_some (h : A.IsExact quot) {n m c p : ℕ} {f : ℕ → ℕ → α}
    (hc : c < m) (hp : A.pivotRow? (tabulate n m f) c = some p) : IsPivot n f c p := by
  obtain ⟨i, hi, rfl⟩ := Option.map_eq_some_iff.mp hp
  obtain ⟨hlt, hne, hz⟩ := List.findIdx?_eq_some_iff_getElem.mp hi
  have hin : i < n - c := by simpa using hlt
  have htest : ∀ r, A.isZero (((List.range m).map (f r)).getD c A.zero) = true ↔ f r c = 0 := by
    intro r
    rw [getD_map_range hc, h.isZero_iff]
  have hentry : ∀ j (hj : j < ((tabulate n m f).drop c).length),
      ((tabulate n m f).drop c)[j] = (List.range m).map (f (c + j)) := by
    intro j hj
    simp [tabulate]
  refine ⟨Nat.le_add_right c i, by omega, ?_, ?_⟩
  · intro hzero
    rw [hentry i hlt, (htest (c + i)).mpr hzero] at hne
    simp at hne
  · intro r hcr hrp
    have hj := hz (r - c) (by omega)
    rw [hentry, show c + (r - c) = r by omega] at hj
    exact (htest r).mp (by simpa using hj)

theorem IsExact.pivotRow?_tabulate_eq_none (h : A.IsExact quot) {n m c : ℕ} {f : ℕ → ℕ → α}
    (hc : c < m) (hp : A.pivotRow? (tabulate n m f) c = none) {r : ℕ} (hcr : c ≤ r)
    (hrn : r < n) : f r c = 0 := by
  have hall := List.findIdx?_eq_none_iff.mp (Option.map_eq_none_iff.mp hp)
  have hmem : (List.range m).map (f r) ∈ (tabulate n m f).drop c := by
    rw [tabulate, drop_map_range]
    exact List.mem_map.mpr ⟨r - c, List.mem_range.mpr (by omega),
      by rw [show c + (r - c) = r by omega]⟩
  have hrow := hall _ hmem
  rw [getD_map_range hc] at hrow
  exact (h.isZero_iff _).mp (by simpa using hrow)

theorem IsExact.pivotRow?_tabulate_self (h : A.IsExact quot) {n m c : ℕ} {f : ℕ → ℕ → α}
    (hn : c < n) (hm : c < m) (hne : f c c ≠ 0) : A.pivotRow? (tabulate n m f) c = some c := by
  cases hp : A.pivotRow? (tabulate n m f) c with
  | none => exact absurd (h.pivotRow?_tabulate_eq_none hm hp (le_refl c) hn) hne
  | some p =>
    have hpivot := h.pivotRow?_tabulate_eq_some hm hp
    rcases Nat.eq_or_lt_of_le hpivot.le with rfl | hlt
    · rfl
    · exact absurd (hpivot.eq_zero c (le_refl c) hlt) hne

theorem IsExact.scaleRow_eq (h : A.IsExact quot) {c m : ℕ} (hc : c < m) (g : ℕ → α)
    (hg : g c ≠ 0) :
    A.scaleRow c ((List.range m).map g) =
      .ok ((List.range m).map fun k => if k < c then g k else quot (g k) (g c)) := by
  have hdiv : (fun a => A.div a (g c)) = fun a => (pure (quot a (g c)) : Except Trap α) :=
    funext fun a => h.div_eq a _ hg
  rw [scaleRow, getD_map_range hc, take_map_range hc.le, drop_map_range, hdiv, List.mapM_pure,
    List.map_map, ← append_map_range hc.le g fun k => quot (g k) (g c)]
  rfl

theorem IsExact.subtractMultiple_eq (h : A.IsExact quot) (factor : α) (entries : α × α) :
    A.subtractMultiple factor entries = .ok (entries.1 - factor * entries.2) := by
  rw [subtractMultiple, h.mul_eq]
  exact h.sub_eq _ _

/-- The row that is left alone because its factor is zero has the same entries as if it had
lost a multiple of the pivot row. -/
theorem IsExact.clearRow_eq (h : A.IsExact quot) {c m : ℕ} (hc : c < m) (q g : ℕ → α) :
    A.clearRow c ((List.range m).map q) ((List.range m).map g) =
      .ok ((List.range m).map fun k => if k < c then g k else g k - g c * q k) := by
  rw [clearRow, getD_map_range hc]
  by_cases hz : g c = 0
  · have hyes : A.isZero (g c) = true := (h.isZero_iff (g c)).mpr hz
    simp only [hyes, if_true]
    simp only [hz, zero_mul, sub_zero, ite_self]
    rfl
  · have hno : A.isZero (g c) = false := by
      rw [← Bool.not_eq_true, h.isZero_iff]
      exact hz
    have hsub : A.subtractMultiple (g c) =
        fun e => (pure (e.1 - g c * e.2) : Except Trap α) :=
      funext fun e => h.subtractMultiple_eq _ e
    simp only [hno, Bool.false_eq_true, if_false]
    rw [take_map_range hc.le, drop_map_range, drop_map_range, hsub, List.mapM_pure,
      List.zip_map', List.map_map, ← append_map_range hc.le g fun k => g k - g c * q k]
    rfl

theorem IsExact.eliminate_tabulate (h : A.IsExact quot) {n m c p : ℕ} {f : ℕ → ℕ → α}
    (hc : c < n) (hm : c < m) (hp : p < n) (hne : f p c ≠ 0) :
    A.eliminate (tabulate n m f) c p =
      .ok (tabulate n m (cleared quot (exchanged f c p) c)) := by
  have hpivot : exchanged f c p c c ≠ 0 := by
    rwa [exchanged, Equiv.swap_apply_left]
  have hrow : ∀ r,
      (if r = c then pure ((List.range m).map (cleared quot (exchanged f c p) c c))
        else A.clearRow c ((List.range m).map (cleared quot (exchanged f c p) c c))
          ((List.range m).map (exchanged f c p r))) =
      (pure ((List.range m).map (cleared quot (exchanged f c p) c r)) : Except Trap _) := by
    intro r
    by_cases hr : r = c
    · rw [if_pos hr, hr]
    · rw [if_neg hr, h.clearRow_eq hm, cleared_of_ne quot _ hr]
      rfl
  rw [eliminate, exchange_tabulate hc hp, getD_tabulate hc, h.scaleRow_eq hm _ hpivot,
    ← cleared_self, zipIdx_tabulate]
  change List.mapM _ _ = _
  rw [List.mapM_map]
  exact (congrArg (fun F => (List.range n).mapM F) (funext hrow)).trans List.mapM_pure

/-- After `c` columns a run either has passed through pivots only or has stopped. -/
theorem IsExact.reduce_cases (h : A.IsExact quot) (n m : ℕ) (f : ℕ → ℕ → α) {c : ℕ}
    (hc : c ≤ n) (hm : c ≤ m) :
    (∃ g, Reaches quot n f c g ∧ A.reduce (tabulate n m f) c = pure (tabulate n m g)) ∨
    ∃ k < c, ∃ g, Reaches quot n f k g ∧ (∀ r, k ≤ r → r < n → g r k = 0) ∧
      A.reduce (tabulate n m f) c = throw (.singular k) := by
  induction c with
  | zero => exact Or.inl ⟨f, .start, rfl⟩
  | succ c ih =>
    rcases ih (by omega) (by omega) with ⟨g, hg, hrun⟩ | ⟨k, hk, g, hg, hz, hrun⟩
    · rw [reduce, hrun, pure_bind]
      cases hp : A.pivotRow? (tabulate n m g) c with
      | none =>
        exact Or.inr ⟨c, by omega, g, hg,
          fun r hcr hrn => h.pivotRow?_tabulate_eq_none hm hp hcr hrn, clearColumn_of_none hp⟩
      | some p =>
        have hpivot := h.pivotRow?_tabulate_eq_some hm hp
        exact Or.inl ⟨_, hg.column hpivot, clearColumn_of_some hp
          (h.eliminate_tabulate hc hm hpivot.lt hpivot.ne_zero)⟩
    · exact Or.inr ⟨k, by omega, g, hg, hz, by rw [reduce, hrun, throw_bind]⟩

/-- The two ways in which solving a system of the right size ends. -/
theorem IsExact.solve_cases (h : A.IsExact quot) (a : SquareMatrix α) {rhs : List α}
    (hl : rhs.length = a.dim) :
    (∃ g, Reaches quot a.dim (augmentedEntry a.toRows rhs a.dim) a.dim g ∧
      A.solve a rhs = pure ((List.range a.dim).map fun r => g r a.dim)) ∨
    ∃ k < a.dim, ∃ g, Reaches quot a.dim (augmentedEntry a.toRows rhs a.dim) k g ∧
      (∀ r, k ≤ r → r < a.dim → g r k = 0) ∧ A.solve a rhs = throw (.singular k) := by
  rw [solve, if_pos hl, augment_eq_tabulate a.length_toRows hl a.length_of_mem_toRows]
  rcases h.reduce_cases a.dim (a.dim + 1) (augmentedEntry a.toRows rhs a.dim) (le_refl _)
    (Nat.le_succ _) with ⟨g, hg, hrun⟩ | ⟨k, hk, g, hg, hz, hrun⟩
  · refine Or.inl ⟨g, hg, ?_⟩
    rw [hrun, pure_bind, tabulate, List.map_map]
    congr 1
    apply List.map_congr_left
    intro r _
    exact getD_map_range (Nat.lt_succ_self _) (g r) A.zero
  · exact Or.inr ⟨k, hk, g, hg, hz, by rw [hrun, throw_bind]⟩

end Arithmetic

end Collocation
