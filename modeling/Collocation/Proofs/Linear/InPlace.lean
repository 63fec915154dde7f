import Collocation.Proofs.Linear.RowLengths

/-!
# Elimination in place

The solver is meant to run on stored rows that are overwritten entry by entry, where reading or
writing a position that does not exist ends the run. That program is written out here, every
access checked, and the remaining positions of a column are visited in ascending order. It has
the same outcome as the solver for every arithmetic: all rows keep one entry more than there are
rows, so no position is ever missing.
-/

set_option autoImplicit false

namespace Collocation

variable {β γ σ : Type}

inductive Fault where
  | trap (t : Trap)
  | outside (position length : ℕ)
  deriving DecidableEq, Repr

def fetch (l : List β) (i : ℕ) : Except Fault β :=
  match l[i]? with
  | some b => .ok b
  | none => .error (.outside i l.length)

def store (l : List β) (i : ℕ) (b : β) : Except Fault (List β) :=
  if i < l.length then .ok (l.set i b) else .error (.outside i l.length)

def updateEach (F : ℕ → β → Except Fault β) (l : List β) (positions : List ℕ) :
    Except Fault (List β) :=
  positions.foldlM (fun l k => do
    let a ← fetch l k
    let b ← F k a
    store l k b) l

def swapRows (rows : List β) (i j : ℕ) : Except Fault (List β) := do
  let first ← fetch rows i
  let second ← fetch rows j
  let rows ← store rows i second
  store rows j first

def trapping (x : Except Trap β) : Except Fault β := x.mapError .trap

def refusing (x : ExceptT Rejection (Except Trap) β) : ExceptT Rejection (Except Fault) β :=
  .mk (trapping x.run)

namespace Arithmetic

variable {α : Type}

def findPivot (A : Arithmetic (Except Trap) α) (rows : List (List α)) (c : ℕ) :
    List ℕ → Except Fault (Option ℕ)
  | [] => .ok none
  | r :: rs => do
    let row ← fetch rows r
    let a ← fetch row c
    if A.isZero a then A.findPivot rows c rs else pure (some r)

def scaleInPlace (A : Arithmetic (Except Trap) α) (n c : ℕ) (row : List α) :
    Except Fault (List α) := do
  let p ← fetch row c
  updateEach (fun _ a => trapping (A.div a p)) row (List.range' c (n + 1 - c))

def clearInPlace (A : Arithmetic (Except Trap) α) (n c : ℕ) (pivot row : List α) :
    Except Fault (List α) := do
  let factor ← fetch row c
  if A.isZero factor then pure row
  else
    updateEach (fun k a => do
      let b ← fetch pivot k
      trapping (A.subtractMultiple factor (a, b))) row (List.range' c (n + 1 - c))

def eliminateInPlace (A : Arithmetic (Except Trap) α) (n : ℕ) (rows : List (List α)) (c p : ℕ) :
    Except Fault (List (List α)) := do
  let rows ← swapRows rows c p
  let row ← fetch rows c
  let scaled ← A.scaleInPlace n c row
  let rows ← store rows c scaled
  let pivot ← fetch rows c
  rows.zipIdx.mapM fun row => if row.2 = c then pure row.1 else A.clearInPlace n c pivot row.1

def clearColumnInPlace (A : Arithmetic (Except Trap) α) (n : ℕ) (rows : List (List α)) (c : ℕ) :
    ExceptT Rejection (Except Fault) (List (List α)) := do
  let p? ← A.findPivot rows c (List.range' c (n - c))
  match p? with
  | none => throw (.singular c)
  | some p => A.eliminateInPlace n rows c p

def reduceInPlace (A : Arithmetic (Except Trap) α) (n : ℕ) (rows : List (List α)) :
    ℕ → ExceptT Rejection (Except Fault) (List (List α))
  | 0 => pure rows
  | k + 1 => do
    let reduced ← A.reduceInPlace n rows k
    A.clearColumnInPlace n reduced k

def solveInPlace (A : Arithmetic (Except Trap) α) (a : SquareMatrix α) (rhs : List α) :
    ExceptT Rejection (Except Fault) (List α) :=
  if rhs.length = a.dim then do
    let rows ← A.reduceInPlace a.dim (augment a.toRows rhs) a.dim
    rows.mapM (m := Except Fault) fun row => fetch row a.dim
  else throw (.dimensionMismatch a.dim rhs.length)

end Arithmetic

section Accesses

theorem fetch_of_lt {l : List β} {i : ℕ} (h : i < l.length) : fetch l i = .ok l[i] := by
  rw [fetch, List.getElem?_eq_getElem h]

theorem store_of_lt {l : List β} {i : ℕ} (h : i < l.length) (b : β) :
    store l i b = .ok (l.set i b) := if_pos h

/-- What follows a computation has to agree only where that computation has a result. -/
theorem trapping_bind {x : Except Trap β} {k : β → Except Trap γ} {l : β → Except Fault γ}
    (h : ∀ b, x = .ok b → l b = trapping (k b)) : trapping x >>= l = trapping (x >>= k) := by
  cases x with
  | error t => rfl
  | ok b => exact h b rfl

theorem trapping_mapM {F : σ → Except Trap γ} {G : σ → Except Fault γ} {l : List σ}
    (h : ∀ s ∈ l, G s = trapping (F s)) : l.mapM G = trapping (l.mapM F) := by
  induction l with
  | nil => rfl
  | cons s l ih =>
    rw [List.mapM_cons, List.mapM_cons, h s (by simp), ih fun t ht => h t (by simp [ht])]
    apply trapping_bind
    intro c _
    apply trapping_bind
    intro cs _
    rfl

theorem refusing_bind {x : ExceptT Rejection (Except Trap) β}
    {k : β → ExceptT Rejection (Except Trap) γ} {l : β → ExceptT Rejection (Except Fault) γ}
    (h : ∀ b, x = pure b → l b = refusing (k b)) : refusing x >>= l = refusing (x >>= k) := by
  rcases outcome_cases x with ⟨t, rfl⟩ | ⟨e, rfl⟩ | ⟨b, rfl⟩
  · rfl
  · rfl
  · exact h b rfl

theorem updateEach_cons (F : ℕ → β → Except Fault β) (l : List β) (k : ℕ) (ks : List ℕ) :
    updateEach F l (k :: ks) = (do
      let a ← fetch l k
      let b ← F k a
      let l ← store l k b
      updateEach F l ks) := by
  rw [updateEach, List.foldlM_cons]
  simp only [bind_assoc]
  rfl

/-- Overwriting the entries behind `front` in ascending order computes them one by one. The
entries already overwritten join the front, which is what the induction moves along. -/
theorem updateEach_eq {f : σ → β} {F : σ → Except Trap β} {G : ℕ → β → Except Fault β}
    (front : List β) (l : List σ)
    (h : ∀ (j : ℕ) (hj : j < l.length), G (front.length + j) (f l[j]) = trapping (F l[j])) :
    updateEach G (front ++ l.map f) (List.range' front.length l.length) =
      trapping (do
        let tail ← l.mapM F
        pure (front ++ tail)) := by
  induction l generalizing front with
  | nil => rfl
  | cons s l ih =>
    have hhead : G front.length (f s) = trapping (F s) := h 0 (by simp)
    have hfetch : fetch (front ++ f s :: l.map f) front.length = .ok (f s) := by
      rw [fetch_of_lt (by simp)]
      simp
    rw [List.length_cons, List.range'_succ, updateEach_cons, List.map_cons, hfetch,
      List.mapM_cons, bind_assoc]
    change G front.length (f s) >>= _ = _
    rw [hhead]
    apply trapping_bind
    intro c _
    have hstore : store (front ++ f s :: l.map f) front.length c =
        .ok ((front ++ [c]) ++ l.map f) := by
      rw [store_of_lt (by simp)]
      simp
    have hlen : (front ++ [c]).length = front.length + 1 := by simp
    have hrest := ih (front ++ [c]) fun j hj => by
      rw [hlen, Nat.add_assoc, Nat.add_comm 1 j]
      exact h (j + 1) (by simpa using hj)
    rw [hlen] at hrest
    rw [hstore]
    change updateEach G _ _ = _
    rw [hrest]
    simp only [bind_assoc, pure_bind, List.append_assoc, List.singleton_append]

theorem swapRows_eq {α : Type} {rows : List (List α)} {i j : ℕ} (hi : i < rows.length)
    (hj : j < rows.length) : swapRows rows i j = .ok (exchange rows i j) := by
  rw [swapRows, fetch_of_lt hi, fetch_of_lt hj, exchange, List.getD_eq_getElem _ _ hi,
    List.getD_eq_getElem _ _ hj]
  change store rows i rows[j] >>= _ = _
  rw [store_of_lt hi]
  exact store_of_lt (by rwa [List.length_set]) rows[i]

theorem zipIdx_set (l : List β) (c : ℕ) (b : β) :
    (l.set c b).zipIdx = l.zipIdx.map fun e => (if e.2 = c then b else e.1, e.2) := by
  apply List.ext_getElem
  · simp
  · intro i hi _
    simp [List.getElem_set, eq_comm]

end Accesses

namespace Arithmetic

variable {α : Type} {A : Arithmetic (Except Trap) α} {n c p : ℕ} {rows : List (List α)}

theorem findPivot_eq (hw : ∀ row ∈ rows, c < row.length) {i k : ℕ} (hk : i + k = rows.length) :
    A.findPivot rows c (List.range' i k) =
      .ok (((rows.drop i).findIdx? fun row => !A.isZero (row.getD c A.zero)).map (i + ·)) := by
  induction k generalizing i with
  | zero =>
    rw [List.drop_eq_nil_of_le (by omega)]
    rfl
  | succ k ih =>
    have hi : i < rows.length := by omega
    have hc : c < rows[i].length := hw _ (List.getElem_mem hi)
    rw [List.range'_succ, findPivot, fetch_of_lt hi, List.drop_eq_getElem_cons hi,
      List.findIdx?_cons, List.getD_eq_getElem _ _ hc]
    change fetch rows[i] c >>= _ = _
    rw [fetch_of_lt hc]
    change (if A.isZero rows[i][c] then _ else _) = _
    cases hz : A.isZero rows[i][c] with
    | true =>
      rw [if_pos rfl, ih (by omega)]
      simp [Function.comp_def, Nat.add_assoc, Nat.add_comm 1]
    | false => rfl

theorem scaleInPlace_eq {row : List α} (hc : c < row.length) (hw : row.length = n + 1) :
    A.scaleInPlace n c row = trapping (A.scaleRow c row) := by
  have hall := updateEach_eq (f := id) (F := fun a => A.div a row[c])
    (G := fun _ a => trapping (A.div a row[c])) (row.take c) (row.drop c) fun _ _ => rfl
  rw [List.map_id, List.take_append_drop, List.length_take, List.length_drop, hw,
    Nat.min_eq_left (by omega)] at hall
  rw [scaleInPlace, scaleRow, fetch_of_lt hc, List.getD_eq_getElem _ _ hc]
  exact hall

theorem clearInPlace_eq {pivot row : List α} (hc : c < row.length) (hw : row.length = n + 1)
    (hp : pivot.length = n + 1) :
    A.clearInPlace n c pivot row = trapping (A.clearRow c pivot row) := by
  rw [clearInPlace, clearRow, fetch_of_lt hc, List.getD_eq_getElem _ _ hc]
  change (if A.isZero row[c] then _ else _) = trapping (if A.isZero row[c] then _ else _)
  cases hz : A.isZero row[c] with
  | true => rfl
  | false =>
    rw [if_neg Bool.false_ne_true, if_neg Bool.false_ne_true]
    have hfront : (row.take c).length = c := by
      rw [List.length_take]
      omega
    have hlen : (row.drop c).length = (pivot.drop c).length := by
      rw [List.length_drop, List.length_drop, hw, hp]
    have hfetch : ∀ (j : ℕ) (hj : j < ((row.drop c).zip (pivot.drop c)).length),
        fetch pivot ((row.take c).length + j) = .ok ((row.drop c).zip (pivot.drop c))[j].2 := by
      intro j hj
      rw [List.length_zip, hlen, List.length_drop] at hj
      rw [hfront, fetch_of_lt (by omega), List.getElem_zip]
      simp only [List.getElem_drop]
    have hall := updateEach_eq (f := Prod.fst) (F := A.subtractMultiple row[c])
      (G := fun k a => do
        let b ← fetch pivot k
        trapping (A.subtractMultiple row[c] (a, b)))
      (row.take c) ((row.drop c).zip (pivot.drop c)) fun j hj => by
      rw [hfetch j hj]
      rfl
    rw [List.map_fst_zip hlen.le, List.take_append_drop, hfront, List.length_zip, hlen,
      List.length_drop, hp, Nat.min_self] at hall
    exact hall

theorem eliminateInPlace_eq (h : HasShape n (n + 1) rows) (hp : A.pivotRow? rows c = some p) :
    A.eliminateInPlace n rows c p = trapping (A.eliminate rows c p) := by
  obtain ⟨hc, hplt, -⟩ := pivotRow?_spec hp
  have hpn : p < n := by rwa [← h.length_eq]
  have hex := h.after_exchange (i := c) (by omega) hpn
  have hclt : c < (exchange rows c p).length := by
    rw [hex.length_eq]
    omega
  have hwidth : ∀ row ∈ exchange rows c p, c < row.length := by
    intro row hrow
    rw [hex.width_eq row hrow]
    omega
  have hmem : (exchange rows c p)[c] ∈ exchange rows c p := List.getElem_mem hclt
  rw [eliminateInPlace, eliminate, swapRows_eq (by omega) hplt, List.getD_eq_getElem _ _ hclt]
  change fetch (exchange rows c p) c >>= _ = _
  rw [fetch_of_lt hclt]
  change A.scaleInPlace n c (exchange rows c p)[c] >>= _ = _
  rw [scaleInPlace_eq (hwidth _ hmem) (hex.width_eq _ hmem)]
  apply trapping_bind
  intro pivot hs
  have hpivot : pivot.length = n + 1 := by
    rw [length_of_scaleRow hs, hex.width_eq _ hmem]
  rw [store_of_lt hclt]
  change fetch ((exchange rows c p).set c pivot) c >>= _ = _
  rw [fetch_of_lt (by rwa [List.length_set]), List.getElem_set_self]
  change List.mapM _ _ = _
  rw [zipIdx_set, List.mapM_map]
  apply trapping_mapM
  intro e he
  by_cases hr : e.2 = c
  · simp only [Function.comp_apply, if_pos hr]
    rfl
  · have hrow := List.fst_mem_of_mem_zipIdx he
    simp only [Function.comp_apply, if_neg hr]
    exact clearInPlace_eq (hwidth _ hrow) (hex.width_eq _ hrow) hpivot

theorem clearColumnInPlace_eq (h : HasShape n (n + 1) rows) (hc : c < n) :
    A.clearColumnInPlace n rows c = refusing (A.clearColumn rows c) := by
  have hw : ∀ row ∈ rows, c < row.length := by
    intro row hrow
    rw [h.width_eq row hrow]
    omega
  have hfind : A.findPivot rows c (List.range' c (n - c)) = .ok (A.pivotRow? rows c) :=
    findPivot_eq hw (by rw [h.length_eq]; omega)
  rw [clearColumnInPlace, clearColumn, hfind]
  cases hp : A.pivotRow? rows c with
  | none => rfl
  | some p =>
    change liftM (A.eliminateInPlace n rows c p) = refusing (liftM (A.eliminate rows c p))
    rw [eliminateInPlace_eq h hp]
    cases A.eliminate rows c p <;> rfl

theorem reduceInPlace_eq (h : HasShape n (n + 1) rows) {k : ℕ} (hk : k ≤ n) :
    A.reduceInPlace n rows k = refusing (A.reduce rows k) := by
  induction k with
  | zero => rfl
  | succ k ih =>
    rw [reduceInPlace, reduce, ih (by omega)]
    apply refusing_bind
    intro reduced hr
    exact clearColumnInPlace_eq (h.reduce hr) hk

/-- No position is ever missing, whatever the arithmetic: in place or not, the solver has the
same outcome. -/
theorem solveInPlace_eq (A : Arithmetic (Except Trap) α) (a : SquareMatrix α) (rhs : List α) :
    A.solveInPlace a rhs = refusing (A.solve a rhs) := by
  rw [solveInPlace, solve]
  by_cases hl : rhs.length = a.dim
  · have hshape := hasShape_augment a hl
    rw [if_pos hl, if_pos hl, reduceInPlace_eq hshape (le_refl _)]
    apply refusing_bind
    intro rows hr
    have hlast : ∀ row ∈ rows, fetch row a.dim = trapping (pure (row.getD a.dim A.zero)) := by
      intro row hrow
      have hlt : a.dim < row.length := by
        rw [(hshape.reduce hr).width_eq row hrow]
        exact Nat.lt_succ_self _
      rw [fetch_of_lt hlt, List.getD_eq_getElem _ _ hlt]
      rfl
    rw [trapping_mapM hlast, List.mapM_pure]
    rfl
  · rw [if_neg hl, if_neg hl]
    rfl

/-! Rows that are too short are a fault, though the solver never comes to any. -/

example : integer.eliminateInPlace 2 [[1, 2, 3], [4, 5]] 0 0 = .error (.outside 2 2) := rfl

end Arithmetic

end Collocation
