import Collocation.Proofs.Linear.Tabulation

/-!
# Views of a square matrix

The entries of a matrix are reached by position in the storage, by taking rows off it, by cutting
it into pieces, or by the part of it that is one row. All views show the same entries: a row that
is taken off begins where the multiplied index points to, and it ends before the next row begins.
A column that does not exist is not found, although its position may lie in the storage.
-/

set_option autoImplicit false

namespace Collocation

variable {α : Type}

theorem getElem?_takeRows (width count : ℕ) (l : List α) (i : ℕ) :
    (takeRows width count l)[i]? =
      if i < count then some ((l.drop (i * width)).take width) else none := by
  induction count generalizing l i with
  | zero => simp [takeRows]
  | succ count ih =>
    cases i with
    | zero => simp [takeRows]
    | succ i =>
      have hpos : width + i * width = (i + 1) * width := by
        rw [Nat.add_mul, Nat.one_mul, Nat.add_comm]
      rw [takeRows, List.getElem?_cons_succ, ih, List.drop_drop, hpos]
      simp only [Nat.add_lt_add_iff_right]

theorem pieces_eq_takeRows {width count : ℕ} {l : List α} (hw : 0 < width)
    (hl : l.length = count * width) : pieces width l = takeRows width count l := by
  induction count generalizing l with
  | zero =>
    rw [Nat.zero_mul] at hl
    rw [List.eq_nil_of_length_eq_zero hl, pieces, takeRows]
  | succ count ih =>
    obtain ⟨w, rfl⟩ := Nat.exists_eq_add_one.mpr hw
    rw [Nat.succ_mul] at hl
    cases l with
    | nil =>
      rw [List.length_nil] at hl
      omega
    | cons a l =>
      have hrest : (l.drop w).length = count * (w + 1) := by
        rw [List.length_cons] at hl
        rw [List.length_drop]
        omega
      rw [pieces, takeRows, Nat.add_sub_cancel, ih hrest, List.take_succ_cons,
        List.drop_succ_cons]

namespace SquareMatrix

theorem get?_eq_toRows (a : SquareMatrix α) (i j : ℕ) :
    a.get? i j = a.toRows[i]?.bind (·[j]?) := by
  rw [get?, toRows, getElem?_takeRows]
  by_cases hi : i < a.dim
  · rw [if_pos hi, Option.bind_some, List.getElem?_take, List.getElem?_drop]
    simp only [hi, true_and]
  · simp [hi]

theorem get?_of_lt (a : SquareMatrix α) {i j : ℕ} (h : i < a.dim ∧ j < a.dim) :
    a.get? i j = some (a.entries.get ⟨i * a.dim + j, a.index_lt h⟩) := by
  rw [get?, if_pos h, List.getElem?_eq_getElem (a.index_lt h)]
  rfl

theorem get?_of_not_lt (a : SquareMatrix α) {i j : ℕ} (h : ¬ (i < a.dim ∧ j < a.dim)) :
    a.get? i j = none :=
  if_neg h

theorem exists_get?_iff (a : SquareMatrix α) (i j : ℕ) :
    (∃ v, a.get? i j = some v) ↔ i < a.dim ∧ j < a.dim := by
  by_cases h : i < a.dim ∧ j < a.dim
  · rw [a.get?_of_lt h]
    simp [h]
  · rw [a.get?_of_not_lt h]
    simp [h]

theorem entry_eq_ok_iff (a : SquareMatrix α) (i j : ℕ) (v : α) :
    a.entry i j = .ok v ↔ a.get? i j = some v := by
  rw [entry]
  by_cases h : i < a.dim ∧ j < a.dim
  · rw [dif_pos h, a.get?_of_lt h, Except.ok.injEq, Option.some.injEq]
  · rw [dif_neg h, a.get?_of_not_lt h]
    simp

theorem entry_eq_error_iff (a : SquareMatrix α) (i j : ℕ) (e : RangeError) :
    a.entry i j = .error e ↔ a.get? i j = none ∧ e = .entry i j a.dim := by
  rw [entry]
  by_cases h : i < a.dim ∧ j < a.dim
  · rw [dif_pos h, a.get?_of_lt h]
    simp
  · rw [dif_neg h, a.get?_of_not_lt h]
    simp [eq_comm]

theorem slices_eq_toRows (a : SquareMatrix α) : a.slices = a.toRows := by
  by_cases hd : a.dim = 0
  · have hnil : a.entries = [] := by
      apply List.eq_nil_of_length_eq_zero
      rw [a.length_entries, hd]
    rw [slices, toRows, hd, hnil, pieces, takeRows]
  · exact pieces_eq_takeRows (Nat.pos_of_ne_zero hd) a.length_entries

theorem map_length_slices (a : SquareMatrix α) :
    a.slices.map List.length = List.replicate a.dim a.dim := by
  rw [List.eq_replicate_iff, List.length_map, slices_eq_toRows]
  refine ⟨a.length_toRows, ?_⟩
  intro n hn
  obtain ⟨row, hrow, rfl⟩ := List.mem_map.mp hn
  exact a.length_of_mem_toRows row hrow

theorem row_eq_ok_iff (a : SquareMatrix α) (i : ℕ) (r : List α) :
    a.row i = .ok r ↔ a.toRows[i]? = some r := by
  rw [row, toRows, getElem?_takeRows]
  by_cases hi : i < a.dim
  · rw [if_pos hi, if_pos hi, Except.ok.injEq, Option.some.injEq]
  · simp [hi]

theorem row_eq_error_iff (a : SquareMatrix α) (i : ℕ) (e : RangeError) :
    a.row i = .error e ↔ a.dim ≤ i ∧ e = .row i a.dim := by
  rw [row]
  by_cases hi : i < a.dim
  · simp [hi, Nat.not_le_of_lt hi]
  · simp [hi, Nat.le_of_not_lt hi, eq_comm]

theorem toRows_getElem?_iff (a : SquareMatrix α) (i j : ℕ) (v : α) :
    (∃ r, a.toRows[i]? = some r ∧ r[j]? = some v) ↔ a.get? i j = some v := by
  rw [get?_eq_toRows, Option.bind_eq_some_iff]

structure ViewsAgree (a : SquareMatrix α) (i j : ℕ) : Prop where
  found_iff : (∃ v, a.get? i j = some v) ↔ i < a.dim ∧ j < a.dim
  entry_iff (v : α) : a.entry i j = .ok v ↔ a.get? i j = some v
  row_iff (v : α) : (∃ r, a.row i = .ok r ∧ r[j]? = some v) ↔ a.get? i j = some v
  slices_iff (v : α) : (∃ r, a.slices[i]? = some r ∧ r[j]? = some v) ↔ a.get? i j = some v
  toRows_iff (v : α) : (∃ r, a.toRows[i]? = some r ∧ r[j]? = some v) ↔ a.get? i j = some v
  no_entry (e : RangeError) :
    a.entry i j = .error e ↔ a.get? i j = none ∧ e = .entry i j a.dim
  no_row (e : RangeError) : a.row i = .error e ↔ a.dim ≤ i ∧ e = .row i a.dim

/-- All views of a matrix show the same entry at the same place, and nothing outside. There are
as many slices as the dimension says, and each is as long. -/
theorem views_agree (a : SquareMatrix α) :
    (∀ i j, a.ViewsAgree i j) ∧ a.slices.map List.length = List.replicate a.dim a.dim := by
  refine ⟨?_, a.map_length_slices⟩
  intro i j
  have hrows := a.toRows_getElem?_iff i j
  constructor
  case found_iff => exact a.exists_get?_iff i j
  case entry_iff => exact a.entry_eq_ok_iff i j
  case row_iff =>
    intro v
    simpa only [row_eq_ok_iff] using hrows v
  case slices_iff =>
    intro v
    simpa only [slices_eq_toRows] using hrows v
  case toRows_iff => exact hrows
  case no_entry => exact a.entry_eq_error_iff i j
  case no_row => exact a.row_eq_error_iff i

/-! The third entry of the storage is not in the first row of two. -/

example : (⟨2, [1, 2, 3, 4], rfl⟩ : SquareMatrix ℕ).entry 0 2 = .error (.entry 0 2 2) := rfl

end SquareMatrix

end Collocation
