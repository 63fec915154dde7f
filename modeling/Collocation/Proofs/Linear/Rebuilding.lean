import Collocation.Proofs.Linear.Tabulation

/-!
# Taking a matrix apart and building it again

A matrix is built from rows by putting them one after the other, and it is taken apart by cutting
rows of equal length off its storage. Rows can be built into a matrix exactly if each is as long
as there are rows, and then the two operations undo each other. Of several rows with a wrong
length the first is reported.
-/

set_option autoImplicit false

namespace Collocation

variable {α : Type}

structure IsFirstRagged (rows : List (List α)) (i : ℕ) (row : List α) : Prop where
  getElem?_eq : rows[i]? = some row
  length_ne : row.length ≠ rows.length
  square_before : ∀ earlier ∈ rows.take i, earlier.length = rows.length

theorem flatten_takeRows {width count : ℕ} {l : List α} (hl : l.length = count * width) :
    (takeRows width count l).flatten = l := by
  induction count generalizing l with
  | zero =>
    rw [Nat.zero_mul] at hl
    rw [List.eq_nil_of_length_eq_zero hl]
    rfl
  | succ count ih =>
    have hrest : (l.drop width).length = count * width := by
      rw [List.length_drop, hl, Nat.succ_mul, Nat.add_sub_cancel]
    rw [takeRows, List.flatten_cons, ih hrest, List.take_append_drop]

theorem findIdx?_ragged_eq_none_iff {rows : List (List α)} :
    rows.findIdx? (fun row => row.length != rows.length) = none ↔
      ∀ row ∈ rows, row.length = rows.length := by
  simp

theorem findIdx?_ragged_eq_some_iff {rows : List (List α)} {i : ℕ} :
    rows.findIdx? (fun row => row.length != rows.length) = some i ↔
      ∃ row, IsFirstRagged rows i row := by
  rw [List.findIdx?_eq_some_iff_getElem]
  constructor
  · rintro ⟨hi, hne, hbefore⟩
    refine ⟨rows[i], List.getElem?_eq_getElem hi, by simpa using hne, ?_⟩
    intro earlier hmem
    obtain ⟨k, hk, rfl⟩ := List.mem_take_iff_getElem.mp hmem
    have hki : k < i := by omega
    simpa using hbefore k hki
  · rintro ⟨row, hrow, hne, hbefore⟩
    obtain ⟨hi, rfl⟩ := List.getElem?_eq_some_iff.mp hrow
    refine ⟨hi, by simpa using hne, ?_⟩
    intro k hk
    have hmem : rows[k] ∈ rows.take i := List.mem_take_iff_getElem.mpr ⟨k, by omega, rfl⟩
    simpa using hbefore _ hmem

theorem exists_isFirstRagged {rows : List (List α)}
    (h : ¬ ∀ row ∈ rows, row.length = rows.length) : ∃ i row, IsFirstRagged rows i row := by
  cases hfind : rows.findIdx? (fun row => row.length != rows.length) with
  | none => exact absurd (findIdx?_ragged_eq_none_iff.mp hfind) h
  | some i => exact ⟨i, findIdx?_ragged_eq_some_iff.mp hfind⟩

namespace SquareMatrix

variable {rows : List (List α)}

theorem ofRows_of_square (h : ∀ row ∈ rows, row.length = rows.length) :
    ofRows rows = .ok ⟨rows.length, rows.flatten, length_flatten_of_square h⟩ := by
  have hnone := findIdx?_ragged_eq_none_iff.mpr h
  unfold ofRows
  split
  case h_1 i hi =>
    rw [hnone] at hi
    cases hi
  case h_2 => rfl

theorem ofRows_of_ragged {i : ℕ} {row : List α} (h : IsFirstRagged rows i row) :
    ofRows rows = .error (.notSquare rows.length i row.length) := by
  have hsome := findIdx?_ragged_eq_some_iff.mpr ⟨row, h⟩
  have hrow : rows.getD i [] = row := by rw [List.getD_eq_getElem?_getD, h.getElem?_eq]; rfl
  unfold ofRows
  split
  case h_1 j hj =>
    rw [hsome] at hj
    rw [← Option.some.inj hj, hrow]
  case h_2 hnone =>
    rw [hsome] at hnone
    cases hnone

theorem ofRows_toRows (a : SquareMatrix α) : ofRows a.toRows = .ok a := by
  have hlen : a.toRows.length = a.dim := a.length_toRows
  have hsquare : ∀ row ∈ a.toRows, row.length = a.toRows.length := by
    intro row hrow
    rw [hlen, a.length_of_mem_toRows row hrow]
  rw [ofRows_of_square hsquare, Except.ok.injEq]
  exact SquareMatrix.ext hlen (flatten_takeRows a.length_entries)

theorem toRows_ofRows {a : SquareMatrix α} (h : ofRows rows = .ok a) : a.toRows = rows := by
  by_cases hsquare : ∀ row ∈ rows, row.length = rows.length
  · rw [ofRows_of_square hsquare] at h
    rw [← Except.ok.inj h]
    exact takeRows_flatten hsquare
  · obtain ⟨i, row, hragged⟩ := exists_isFirstRagged hsquare
    rw [ofRows_of_ragged hragged] at h
    cases h

theorem ofRows_eq_error_iff {r : Rejection} : ofRows rows = .error r ↔
    ∃ i row, IsFirstRagged rows i row ∧ r = .notSquare rows.length i row.length := by
  constructor
  · intro h
    by_cases hsquare : ∀ row ∈ rows, row.length = rows.length
    · rw [ofRows_of_square hsquare] at h
      cases h
    · obtain ⟨i, row, hragged⟩ := exists_isFirstRagged hsquare
      rw [ofRows_of_ragged hragged] at h
      exact ⟨i, row, hragged, (Except.error.inj h).symm⟩
  · rintro ⟨i, row, hragged, rfl⟩
    exact ofRows_of_ragged hragged

theorem exists_ofRows_iff :
    (∃ a, ofRows rows = .ok a) ↔ ∀ row ∈ rows, row.length = rows.length := by
  constructor
  · rintro ⟨a, ha⟩ row hrow
    rw [← toRows_ofRows ha] at hrow ⊢
    rw [a.length_of_mem_toRows row hrow, a.length_toRows]
  · intro h
    exact ⟨_, ofRows_of_square h⟩

/-- Building a matrix from rows and taking the rows of a matrix are inverse to each other. Rows
that are no square are refused for the first row of wrong length. -/
theorem ofRows_inverse_toRows :
    (∀ rows : List (List α),
      ((∃ a, ofRows rows = .ok a) ↔ ∀ row ∈ rows, row.length = rows.length) ∧
      (∀ a, ofRows rows = .ok a ↔ a.toRows = rows) ∧
      ∀ r, ofRows rows = .error r ↔
        ∃ i row, IsFirstRagged rows i row ∧ r = .notSquare rows.length i row.length) ∧
    ∀ a : SquareMatrix α, ofRows a.toRows = .ok a := by
  constructor
  · intro rows
    refine ⟨exists_ofRows_iff, ?_, fun r => ofRows_eq_error_iff⟩
    intro a
    constructor
    · exact toRows_ofRows
    · rintro rfl
      exact ofRows_toRows a
  · exact ofRows_toRows

example : ofRows [[1, 2, 3], [4, 5], []] =
    (.error (.notSquare 3 1 2) : Except Rejection (SquareMatrix ℕ)) := rfl

end SquareMatrix

end Collocation
