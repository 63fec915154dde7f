import Collocation.Linear.GaussJordan
import Mathlib.Data.List.GetD

/-!
# Rows as tables of entries

A list of equally long rows is the table of a function of two positions. Elimination is
described on such functions; the lists only say how far the positions go. The rows of a square
matrix, also with a right-hand side attached, are tables.
-/

set_option autoImplicit false

namespace Collocation

variable {α : Type}

def tabulate (n m : ℕ) (f : ℕ → ℕ → α) : List (List α) :=
  (List.range n).map fun r => (List.range m).map (f r)

@[simp] theorem length_tabulate (n m : ℕ) (f : ℕ → ℕ → α) : (tabulate n m f).length = n := by
  simp [tabulate]

theorem getD_tabulate {n r : ℕ} (hr : r < n) (m : ℕ) (f : ℕ → ℕ → α) :
    (tabulate n m f).getD r [] = (List.range m).map (f r) := by
  simp [tabulate, hr]

theorem getD_map_range {m k : ℕ} (hk : k < m) (g : ℕ → α) (d : α) :
    ((List.range m).map g).getD k d = g k := by
  simp [hk]

theorem eq_map_range {l : List α} {m : ℕ} (hl : l.length = m) {g : ℕ → α}
    (h : ∀ (k : ℕ) (hk : k < l.length), l[k] = g k) : l = (List.range m).map g := by
  apply List.ext_getElem
  · simp [hl]
  · intro k hk _
    simp [h k hk]

theorem zipIdx_tabulate (n m : ℕ) (f : ℕ → ℕ → α) :
    (tabulate n m f).zipIdx = (List.range n).map fun r => ((List.range m).map (f r), r) := by
  apply eq_map_range
  · simp
  · intro r hr
    simp [tabulate]

def augmentedEntry [Zero α] (rows : List (List α)) (rhs : List α) (m r k : ℕ) : α :=
  if k < m then (rows.getD r []).getD k 0 else rhs.getD r 0

theorem augment_eq_tabulate [Zero α] {rows : List (List α)} {rhs : List α} {n m : ℕ}
    (hn : rows.length = n) (hb : rhs.length = n) (hm : ∀ row ∈ rows, row.length = m) :
    augment rows rhs = tabulate n (m + 1) (augmentedEntry rows rhs m) := by
  apply eq_map_range
  · simp [augment, hn, hb]
  · intro r hr
    have hr' : r < rows.length ∧ r < rhs.length := by
      rw [augment, List.length_zipWith] at hr
      omega
    have hw : rows[r].length = m := hm _ (List.getElem_mem hr'.1)
    simp only [augment, List.getElem_zipWith]
    apply eq_map_range
    · simp [hw]
    · intro k hk
      by_cases hkm : k < m
      · rw [List.getElem_append_left (by omega)]
        simp [augmentedEntry, hkm, hr'.1, hw]
      · rw [List.getElem_append_right (by omega)]
        simp [augmentedEntry, hkm, hr'.2]

@[simp] theorem length_takeRows (width count : ℕ) (l : List α) :
    (takeRows width count l).length = count := by
  induction count generalizing l with
  | zero => rfl
  | succ count ih => simp [takeRows, ih]

theorem length_of_mem_takeRows {width count : ℕ} {l : List α} (hl : l.length = count * width) :
    ∀ row ∈ takeRows width count l, row.length = width := by
  induction count generalizing l with
  | zero => simp [takeRows]
  | succ count ih =>
    rw [Nat.add_mul, Nat.one_mul] at hl
    intro row hrow
    rcases List.mem_cons.mp hrow with rfl | hrest
    · rw [List.length_take]
      omega
    · exact ih (by rw [List.length_drop]; omega) row hrest

theorem takeRows_flatten {width : ℕ} {rows : List (List α)}
    (h : ∀ row ∈ rows, row.length = width) : takeRows width rows.length rows.flatten = rows := by
  induction rows with
  | nil => rfl
  | cons row rows ih =>
    have hw : row.length = width := h row (by simp)
    rw [List.length_cons, takeRows, List.flatten_cons, List.take_left' hw, List.drop_left' hw,
      ih fun r hr => h r (by simp [hr])]

@[simp] theorem SquareMatrix.length_toRows (a : SquareMatrix α) : a.toRows.length = a.dim :=
  length_takeRows _ _ _

theorem SquareMatrix.length_of_mem_toRows (a : SquareMatrix α) :
    ∀ row ∈ a.toRows, row.length = a.dim :=
  length_of_mem_takeRows a.length_entries

end Collocation
