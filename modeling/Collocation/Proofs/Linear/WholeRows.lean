import Collocation.Proofs.Arithmetic.Overflow
import Collocation.Proofs.Linear.RowLengths

/-!
# Elimination of whole rows

Textbook elimination divides the whole pivot row and subtracts its multiple from the whole of
every other row, whatever the factor is. The solver starts at the column at hand and leaves
out factors that are zero. What it leaves out are operations on zeros and ones that return an
operand and cannot trap: before the column at hand, the rows that are still to come are zero.
So both have the same outcome, traps included.
-/

set_option autoImplicit false

namespace Collocation

variable {m : Type → Type} {α : Type}

theorem getD_mem_drop {rows : List (List α)} {c : ℕ} (hc : c < rows.length) :
    rows.getD c [] ∈ rows.drop c := by
  rw [List.getD_eq_getElem _ _ hc, List.drop_eq_getElem_cons hc]
  exact List.mem_cons_self

theorem drop_exchange {c p : ℕ} (hc : c ≤ p) (rows : List (List α)) :
    (exchange rows c p).drop c = exchange (rows.drop c) 0 (p - c) := by
  have hnot : ¬ p < c := by omega
  have hentry : ∀ k, c ≤ k → (rows.drop c).getD (k - c) [] = rows.getD k [] := by
    intro k hk
    simp [hk]
  rw [exchange, exchange, List.drop_set, if_neg hnot, List.drop_set, if_neg (lt_irrefl c),
    Nat.sub_self, hentry p hc, ← hentry c (le_refl c), Nat.sub_self]

namespace Arithmetic

section WholeRows

variable [Monad m]

def scaleWholeRow (A : Arithmetic m α) (c : ℕ) (row : List α) : m (List α) :=
  row.mapM fun a => A.div a (row.getD c A.zero)

def clearWholeRow (A : Arithmetic m α) (c : ℕ) (pivot row : List α) : m (List α) :=
  (row.zip pivot).mapM (A.subtractMultiple (row.getD c A.zero))

def eliminateWhole (A : Arithmetic m α) (rows : List (List α)) (c p : ℕ) :
    m (List (List α)) := do
  let exchanged := exchange rows c p
  let pivot ← A.scaleWholeRow c (exchanged.getD c [])
  exchanged.zipIdx.mapM fun row =>
    if row.2 = c then pure pivot else A.clearWholeRow c pivot row.1

def clearColumnWhole (A : Arithmetic m α) (rows : List (List α)) (c : ℕ) :
    ExceptT Rejection m (List (List α)) :=
  match A.pivotRow? rows c with
  | none => throw (.singular c)
  | some p => liftM (A.eliminateWhole rows c p)

def reduceWhole (A : Arithmetic m α) (rows : List (List α)) :
    ℕ → ExceptT Rejection m (List (List α))
  | 0 => pure rows
  | k + 1 => do
    let reduced ← A.reduceWhole rows k
    A.clearColumnWhole reduced k

def solveWhole (A : Arithmetic m α) (a : SquareMatrix α) (rhs : List α) :
    ExceptT Rejection m (List α) :=
  if rhs.length = a.dim then do
    let rows ← A.reduceWhole (augment a.toRows rhs) a.dim
    pure (rows.map fun row => row.getD a.dim A.zero)
  else throw (.dimensionMismatch a.dim rhs.length)

end WholeRows

def ZeroBefore (A : Arithmetic m α) (c : ℕ) (row : List α) : Prop :=
  ∀ a ∈ row.take c, a = A.zero

structure ClearedBelow (A : Arithmetic m α) (width c : ℕ) (rows : List (List α)) : Prop where
  length_eq (row : List α) (h : row ∈ rows) : row.length = width
  zeroBefore (row : List α) (h : row ∈ rows.drop c) : A.ZeroBefore c row

section Rows

variable {A : Arithmetic (Except Trap) α} {c : ℕ} {pivot row : List α}

theorem HasNeutrals.scaleWholeRow_eq (h : A.HasNeutrals) (hz : A.ZeroBefore c row)
    (hp : A.isZero (row.getD c A.zero) = false) : A.scaleWholeRow c row = A.scaleRow c row := by
  have hdiv : ∀ a ∈ row.take c, A.div a (row.getD c A.zero) = .ok (id a) := by
    intro a ha
    rw [hz a ha]
    exact h.zero_div _ hp
  have hsplit : A.scaleWholeRow c row =
      (row.take c ++ row.drop c).mapM fun a => A.div a (row.getD c A.zero) := by
    rw [List.take_append_drop]
    rfl
  rw [hsplit, List.mapM_append, mapM_eq_ok_map hdiv, List.map_id]
  rfl

theorem HasNeutrals.zero_subtractMultiple (h : A.HasNeutrals) (entries : α × α) :
    A.subtractMultiple A.zero entries = .ok entries.1 := by
  rw [subtractMultiple, h.zero_mul]
  exact h.sub_zero entries.1

theorem HasNeutrals.subtractMultiple_zero (h : A.HasNeutrals) (factor : α) {entries : α × α}
    (hz : entries.2 = A.zero) : A.subtractMultiple factor entries = .ok entries.1 := by
  rw [subtractMultiple, hz, h.mul_zero]
  exact h.sub_zero entries.1

theorem HasNeutrals.clearWholeRow_eq (h : A.HasNeutrals) (hz : A.ZeroBefore c pivot)
    (hl : row.length = pivot.length) : A.clearWholeRow c pivot row = A.clearRow c pivot row := by
  rw [clearWholeRow, clearRow]
  cases hfactor : A.isZero (row.getD c A.zero) with
  | true =>
    rw [(h.isZero_iff _).mp hfactor, mapM_eq_ok_map fun e _ => h.zero_subtractMultiple e,
      List.map_fst_zip hl.le]
    rfl
  | false =>
    have hfront : ∀ e ∈ (row.take c).zip (pivot.take c),
        A.subtractMultiple (row.getD c A.zero) e = .ok e.1 :=
      fun e he => h.subtractMultiple_zero _ (hz _ (List.of_mem_zip he).2)
    have hlen : (row.take c).length = (pivot.take c).length := by
      rw [List.length_take, List.length_take, hl]
    have hsplit : row.zip pivot =
        (row.take c).zip (pivot.take c) ++ (row.drop c).zip (pivot.drop c) := by
      rw [← List.zip_append hlen, List.take_append_drop, List.take_append_drop]
    rw [hsplit, List.mapM_append, mapM_eq_ok_map hfront, List.map_fst_zip hlen.le]
    rfl

/-- The pivot row keeps its entries before column `c` and has a one in the column. -/
theorem HasNeutrals.scaleRow_eq_ok (h : A.HasNeutrals) (hc : c < row.length)
    (hp : A.isZero (row.getD c A.zero) = false) (hs : A.scaleRow c row = .ok pivot) :
    pivot.take c = row.take c ∧ ∃ rest, pivot.drop c = A.one :: rest := by
  have hentry : row.getD c A.zero = row[c] := List.getD_eq_getElem _ _ hc
  rw [scaleRow, List.drop_eq_getElem_cons hc] at hs
  rw [hentry] at hs hp
  obtain ⟨tail, htail, hpivot⟩ := bind_eq_ok_iff.mp hs
  obtain ⟨one, rest, hone, -, rfl⟩ := mapM_cons_eq_ok_iff.mp htail
  obtain rfl := Except.ok.inj ((h.div_self _ hp).symm.trans hone)
  obtain rfl := Except.ok.inj hpivot
  have hfront : (row.take c).length = c := by
    rw [List.length_take, Nat.min_eq_left hc.le]
  exact ⟨List.take_left' hfront, rest, List.drop_left' hfront⟩

theorem ZeroBefore.succ (hz : A.ZeroBefore c row) {rest : List α}
    (hc : row.drop c = A.zero :: rest) : A.ZeroBefore (c + 1) row := by
  intro a ha
  rw [List.take_add, hc, List.take_succ_cons, List.take_zero, List.mem_append,
    List.mem_singleton] at ha
  rcases ha with hbefore | rfl
  · exact hz a hbefore
  · rfl

/-- A row that is zero before column `c` is zero up to it once the column is cleared. -/
theorem HasNeutrals.zeroBefore_of_clearRow (h : A.HasNeutrals) {row' : List α}
    (hc : c < row.length) (hz : A.ZeroBefore c row) {rest : List α}
    (hpivot : pivot.drop c = A.one :: rest) (hr : A.clearRow c pivot row = .ok row') :
    A.ZeroBefore (c + 1) row' := by
  have hentry : row.getD c A.zero = row[c] := List.getD_eq_getElem _ _ hc
  have hdrop : row.drop c = row[c] :: row.drop (c + 1) := List.drop_eq_getElem_cons hc
  rw [clearRow, hentry] at hr
  cases hfactor : A.isZero row[c] with
  | true =>
    simp only [hfactor, if_true] at hr
    obtain rfl := Except.ok.inj hr
    rw [(h.isZero_iff _).mp hfactor] at hdrop
    exact hz.succ hdrop
  | false =>
    simp only [hfactor, Bool.false_eq_true, if_false] at hr
    rw [hdrop, hpivot, List.zip_cons_cons] at hr
    obtain ⟨tail, htail, hrow⟩ := bind_eq_ok_iff.mp hr
    obtain ⟨b, tail', hb, -, rfl⟩ := mapM_cons_eq_ok_iff.mp htail
    -- The entry in the column loses itself, because the pivot row has a one there.
    have hzero : b = A.zero := by
      rw [subtractMultiple, h.mul_one] at hb
      exact Except.ok.inj (hb.symm.trans (h.sub_self _))
    obtain rfl := Except.ok.inj hrow
    have hfront : (row.take c).length = c := by
      rw [List.length_take, Nat.min_eq_left hc.le]
    have hz' : A.ZeroBefore c (row.take c ++ b :: tail') := by
      rw [ZeroBefore, List.take_left' hfront]
      exact hz
    apply hz'.succ
    rw [List.drop_left' hfront, hzero]

end Rows

section Tables

variable {A : Arithmetic (Except Trap) α} {c p width : ℕ} {rows : List (List α)}

theorem ClearedBelow.after_exchange (hcl : A.ClearedBelow width c rows) (hc : c ≤ p)
    (hp : p < rows.length) : A.ClearedBelow width c (exchange rows c p) := by
  constructor
  · intro row hrow
    exact hcl.length_eq row (mem_of_mem_exchange (by omega) hp hrow)
  · intro row hrow
    rw [drop_exchange hc] at hrow
    have hdrop : p - c < (rows.drop c).length := by
      rw [List.length_drop]
      omega
    exact hcl.zeroBefore row (mem_of_mem_exchange (by omega) hdrop hrow)

theorem ClearedBelow.pivot (hcl : A.ClearedBelow width c rows)
    (hp : A.pivotRow? rows c = some p) :
    ((exchange rows c p).getD c []).length = width ∧
      A.ZeroBefore c ((exchange rows c p).getD c []) ∧
      A.isZero (((exchange rows c p).getD c []).getD c A.zero) = false := by
  obtain ⟨hc, hlen, -⟩ := pivotRow?_spec hp
  have hex := hcl.after_exchange hc hlen
  have hlt : c < (exchange rows c p).length := by
    rw [length_exchange]
    omega
  have hmem := getD_mem_drop hlt
  exact ⟨hex.length_eq _ (List.mem_of_mem_drop hmem), hex.zeroBefore _ hmem, isZero_pivot hp⟩

theorem HasNeutrals.eliminateWhole_eq (h : A.HasNeutrals) (hcl : A.ClearedBelow width c rows)
    (hw : c < width) (hp : A.pivotRow? rows c = some p) :
    A.eliminateWhole rows c p = A.eliminate rows c p := by
  obtain ⟨hlen, hz, hne⟩ := hcl.pivot hp
  obtain ⟨hc, hplt, -⟩ := pivotRow?_spec hp
  rw [eliminateWhole, eliminate, h.scaleWholeRow_eq hz hne]
  cases hs : A.scaleRow c ((exchange rows c p).getD c []) with
  | error t => rfl
  | ok pivot =>
    obtain ⟨hfront, -⟩ := h.scaleRow_eq_ok (by omega) hne hs
    have hpivotlen := length_of_scaleRow hs
    have hpivot : A.ZeroBefore c pivot := by
      rw [ZeroBefore, hfront]
      exact hz
    change List.mapM _ _ = List.mapM _ _
    apply mapM_congr
    intro e he
    by_cases hr : e.2 = c
    · rw [if_pos hr, if_pos hr]
    · have hrow := (hcl.after_exchange hc hplt).length_eq e.1 (List.fst_mem_of_mem_zipIdx he)
      rw [if_neg hr, if_neg hr, h.clearWholeRow_eq hpivot (by omega)]

theorem HasNeutrals.clearedBelow_succ (h : A.HasNeutrals) (hcl : A.ClearedBelow width c rows)
    (hw : c < width) (hp : A.pivotRow? rows c = some p) {rows' : List (List α)}
    (he : A.eliminate rows c p = .ok rows') : A.ClearedBelow width (c + 1) rows' := by
  obtain ⟨hlen, hz, hne⟩ := hcl.pivot hp
  obtain ⟨hc, hplt, -⟩ := pivotRow?_spec hp
  obtain ⟨pivot, hs, hlen', hrows⟩ := eliminate_eq_ok he
  obtain ⟨-, rest, hrest⟩ := h.scaleRow_eq_ok (by omega) hne hs
  have hex := hcl.after_exchange hc hplt
  have hshape : HasShape rows.length width rows := ⟨rfl, hcl.length_eq⟩
  refine ⟨(hshape.eliminate hp he).width_eq, ?_⟩
  intro row hrow
  obtain ⟨j, hj, rfl⟩ := List.mem_drop_iff_getElem.mp hrow
  have hi' : c + 1 + j < (exchange rows c p).length := by
    rw [length_exchange, ← hlen']
    omega
  have hstep := hrows (c + 1 + j) hi' (by omega)
  rw [if_neg (by omega)] at hstep
  have hmem : (exchange rows c p)[c + 1 + j] ∈ (exchange rows c p).drop c :=
    List.mem_drop_iff_getElem.mpr ⟨1 + j, by omega, by simp only [Nat.add_assoc]⟩
  have hwidth := hex.length_eq _ (List.getElem_mem hi')
  exact h.zeroBefore_of_clearRow (by omega) (hex.zeroBefore _ hmem) hrest hstep

theorem HasNeutrals.clearColumnWhole_eq (h : A.HasNeutrals)
    (hcl : A.ClearedBelow width c rows) (hw : c < width) :
    A.clearColumnWhole rows c = A.clearColumn rows c := by
  rw [clearColumnWhole, clearColumn]
  cases hp : A.pivotRow? rows c with
  | none => rfl
  | some p => simp only [h.eliminateWhole_eq hcl hw hp]

/-- Both eliminations pass through the same rows, and these are cleared below the diagonal. -/
theorem HasNeutrals.reduceWhole_eq (h : A.HasNeutrals) (hcl : A.ClearedBelow width 0 rows)
    {k : ℕ} (hk : k ≤ width) :
    A.reduceWhole rows k = A.reduce rows k ∧
      ∀ reduced, A.reduce rows k = pure reduced → A.ClearedBelow width k reduced := by
  induction k with
  | zero =>
    refine ⟨rfl, ?_⟩
    intro reduced hr
    rwa [← pure_inj.mp hr]
  | succ k ih =>
    obtain ⟨hsame, hcleared⟩ := ih (by omega)
    rw [reduceWhole, reduce, hsame]
    cases hr : A.reduce rows k with
    | error t =>
      refine ⟨rfl, ?_⟩
      intro reduced hnext
      cases hnext
    | ok r =>
      cases r with
      | error e =>
        refine ⟨rfl, ?_⟩
        intro reduced hnext
        exact absurd hnext (throw_ne_pure e reduced)
      | ok reduced =>
        have hnow := hcleared reduced hr
        refine ⟨h.clearColumnWhole_eq hnow hk, ?_⟩
        intro reduced' hnext
        obtain ⟨p, hp, he⟩ := exists_eliminate_of_clearColumn hnext
        exact h.clearedBelow_succ hnow hk hp he

end Tables

theorem clearedBelow_augment (A : Arithmetic m α) (a : SquareMatrix α) (rhs : List α) :
    A.ClearedBelow (a.dim + 1) 0 (augment a.toRows rhs) := by
  refine ⟨length_of_mem_augment a rhs, ?_⟩
  intro row _ x hx
  rw [List.take_zero] at hx
  cases hx

theorem HasNeutrals.solveWhole_eq {A : Arithmetic (Except Trap) α} (h : A.HasNeutrals)
    (a : SquareMatrix α) (rhs : List α) : A.solveWhole a rhs = A.solve a rhs := by
  have hcl := A.clearedBelow_augment a rhs
  rw [solveWhole, solve, (h.reduceWhole_eq hcl (Nat.le_succ a.dim)).1]

end Arithmetic

/-- Over rational numbers, over integers and over 64-bit integers with their traps, solving has
the same outcome as elimination of whole rows: the same solution, refusal or trap. -/
theorem solve_eq_solveWhole :
    (∀ (a : SquareMatrix ℚ) (rhs : List ℚ), rational.solve a rhs = rational.solveWhole a rhs) ∧
    (∀ (a : SquareMatrix ℤ) (rhs : List ℤ), integer.solve a rhs = integer.solveWhole a rhs) ∧
    ∀ (a : SquareMatrix Int64) (rhs : List Int64), int64.solve a rhs = int64.solveWhole a rhs := by
  refine ⟨?_, ?_, ?_⟩
  · intro a rhs
    exact (Arithmetic.rational_isExact.hasNeutrals.solveWhole_eq a rhs).symm
  · intro a rhs
    exact (Arithmetic.integer_isExact.hasNeutrals.solveWhole_eq a rhs).symm
  · intro a rhs
    exact (int64_hasNeutrals.solveWhole_eq a rhs).symm

end Collocation
