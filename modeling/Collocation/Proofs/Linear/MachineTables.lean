import Collocation.Proofs.Arithmetic.PowerSteps
import Collocation.Proofs.Linear.PowerMatrix
import Collocation.Proofs.Samples.MachineRuns

/-!
# Power tables of 64-bit integers

A table of 64-bit nodes exists if and only if all of its powers are 64-bit integers, and then it
is the exact table. Every power either has the exact result or traps in a multiplication, so the
order in which the powers are formed does not show in the trap.
-/

set_option autoImplicit false

namespace Collocation

theorem mem_powerGrid {α : Type} {xs : List α} {p : α × ℕ} :
    p ∈ powerGrid xs ↔ p.1 ∈ xs ∧ p.2 < xs.length := by
  obtain ⟨x, j⟩ := p
  simp [powerGrid]

theorem SquareMatrix.get?_map {α β : Type} (f : β → α) (a : SquareMatrix β) (i j : ℕ) :
    (a.map f).get? i j = (a.get? i j).map f := by
  simp only [get?, map, List.getElem?_map]
  split <;> rfl

/-- If `t` is the only trap that occurs, a sequence of computations either has all results or
traps with `t`, wherever that happens. -/
theorem mapSized_cases {β γ : Type} {f : β → Except Trap γ} {t : Trap} {l : List β}
    (h : ∀ b ∈ l, (∃ c, f b = .ok c) ∨ f b = .error t) :
    (∃ r, mapSized f l = .ok r) ∧ (∀ b ∈ l, ∃ c, f b = .ok c) ∨
      mapSized f l = .error t ∧ ∃ b ∈ l, f b = .error t := by
  induction l with
  | nil => exact .inl ⟨⟨_, rfl⟩, by simp⟩
  | cons b l ih =>
    rcases h b (by simp) with ⟨c, hc⟩ | htrap
    · rcases ih fun b hb => h b (by simp [hb]) with ⟨⟨r, hr⟩, hall⟩ | ⟨hr, b', hb', hb't⟩
      · left
        refine ⟨⟨⟨c :: r.val, by simp [r.property]⟩, ?_⟩, ?_⟩
        · rw [mapSized, hc, hr]
          rfl
        · exact List.forall_mem_cons.mpr ⟨⟨c, hc⟩, hall⟩
      · right
        refine ⟨?_, b', by simp [hb'], hb't⟩
        rw [mapSized, hc, hr]
        rfl
    · right
      refine ⟨?_, b, by simp, htrap⟩
      rw [mapSized, htrap]
      rfl

theorem int64_powerTable_cases (xs : List Int64) :
    (∃ V, int64.powerTable xs = .ok V) ∧ (∀ x ∈ xs, ∀ j < xs.length, InRange (x.toInt ^ j)) ∨
      int64.powerTable xs = .error (.overflow .multiply) ∧
        ∃ x ∈ xs, ∃ j < xs.length, ¬ InRange (x.toInt ^ j) := by
  have hpower : ∀ p ∈ powerGrid xs, (∃ c, int64.power p.1 p.2 = .ok c) ∨
      int64.power p.1 p.2 = .error (.overflow .multiply) := by
    intro p _
    by_cases h : InRange (p.1.toInt ^ p.2)
    · exact .inl ⟨_, int64_power_of_inRange h⟩
    · exact .inr (int64_power_of_not_inRange h)
  rw [Arithmetic.powerTable]
  rcases mapSized_cases hpower with ⟨⟨r, hr⟩, hall⟩ | ⟨hr, ⟨x, j⟩, hp, htrap⟩
  · left
    rw [hr]
    refine ⟨⟨_, rfl⟩, ?_⟩
    intro x hx j hj
    obtain ⟨p, hp⟩ := hall (x, j) (mem_powerGrid.mpr ⟨hx, hj⟩)
    rw [← int64_power_eq_ok hp]
    exact inRange_toInt p
  · right
    rw [hr]
    obtain ⟨hx, hj⟩ := mem_powerGrid.mp hp
    refine ⟨rfl, x, hx, j, hj, ?_⟩
    intro hrange
    rw [int64_power_of_inRange hrange] at htrap
    cases htrap

theorem int64_powerTable_eq_error_iff {xs : List Int64} {t : Trap} :
    int64.powerTable xs = .error t ↔
      t = .overflow .multiply ∧ ∃ x ∈ xs, ∃ j < xs.length, ¬ InRange (x.toInt ^ j) := by
  rcases int64_powerTable_cases xs with ⟨⟨V, hV⟩, hrange⟩ | ⟨htrap, hout⟩
  · rw [hV]
    constructor
    · intro h
      cases h
    · rintro ⟨-, x, hx, j, hj, hout⟩
      exact absurd (hrange x hx j hj) hout
  · rw [htrap, Except.error.injEq]
    exact ⟨fun h => ⟨h.symm, hout⟩, fun h => h.1.symm⟩

theorem map_toInt_powerTable {xs : List Int64} {V : SquareMatrix Int64}
    (h : int64.powerTable xs = .ok V) :
    V.map Int64.toInt = powerMatrix (xs.map Int64.toInt) := by
  have hruns := Recorded.Decides.refinesExact (simulates_int64.powerTable xs)
    (integer.outcome_powerTable _)
  have hexact := hruns.same_result V h
  rw [Arithmetic.integer_isExact.powerTable_eq] at hexact
  exact (Except.ok.inj hexact).symm

theorem int64_powerTable_entry {xs : List Int64} {V : SquareMatrix Int64}
    (h : int64.powerTable xs = .ok V) {i j : ℕ} (hi : i < xs.length) (hj : j < xs.length) :
    ∃ v, V.entry i j = .ok v ∧ v.toInt = xs[i].toInt ^ j := by
  have hexact : (V.map Int64.toInt).get? i j = some (xs[i].toInt ^ j) := by
    rw [map_toInt_powerTable h, ← SquareMatrix.entry_eq_ok_iff,
      entry_powerMatrix (by simpa using hi) (by simpa using hj), List.getElem_map]
  rw [SquareMatrix.get?_map] at hexact
  obtain ⟨v, hv, hpow⟩ := Option.map_eq_some_iff.mp hexact
  exact ⟨v, (V.entry_eq_ok_iff i j v).mpr hv, hpow⟩

/-- The table of 64-bit nodes traps if and only if a power of a node is out of range, and the
message is always that of an overflowing multiplication; a table that exists has the exact
powers for entries. No step on the way to a power in range overflows. -/
theorem int64_powerTable_exact :
    (∀ xs : List Int64,
      ((∃ t, int64.powerTable xs = .error t) ↔
        ∃ x ∈ xs, ∃ j < xs.length, ¬ InRange (x.toInt ^ j)) ∧
      (∀ t, int64.powerTable xs = .error t → t.message = "attempt to multiply with overflow") ∧
      ∀ V, int64.powerTable xs = .ok V → V.dim = xs.length ∧
        ∀ (i j : ℕ) (hi : i < xs.length), j < xs.length →
          ∃ v, V.entry i j = .ok v ∧ v.toInt = xs[i].toInt ^ j) ∧
    ∀ (x : Int64) (e : ℕ), InRange (x.toInt ^ e) →
      (∀ s ∈ (integer.recorded.power x.toInt e).steps, InRange s.result) ∧
      ∃ p, int64.power x e = .ok p ∧ p.toInt = x.toInt ^ e := by
  constructor
  · intro xs
    refine ⟨?_, ?_, ?_⟩
    · simp only [int64_powerTable_eq_error_iff, exists_eq_left]
    · intro t ht
      obtain ⟨rfl, -⟩ := int64_powerTable_eq_error_iff.mp ht
      decide
    · intro V hV
      have hdim := congrArg SquareMatrix.dim (map_toInt_powerTable hV)
      refine ⟨hdim.trans (List.length_map _), ?_⟩
      intro i j hi hj
      exact int64_powerTable_entry hV hi hj
  · intro x e h
    have hpower := int64_power_of_inRange h
    exact ⟨steps_power_inRange h, _, hpower, int64_power_eq_ok hpower⟩

/-- The smallest integer is a power of minus two and is formed without an overflow. It has a table
of its powers zero and one; its square is out of range, and a table that needs it traps. -/
theorem int64_powerTable_bounds :
    InRange ((-2 : Int64).toInt ^ 63) ∧
      (∃ p, int64.power (-2) 63 = .ok p ∧ p.toInt = (-2 : Int64).toInt ^ 63) ∧
      (∃ t, int64.powerTable [Int64.minValue, 0, 0] = .error t) ∧
      ∃ V, int64.powerTable [Int64.minValue, 5] = .ok V ∧
        ∃ v, V.entry 0 1 = .ok v ∧ v.toInt = Int64.minValue.toInt ^ 1 := by
  have hrange : InRange ((-2 : Int64).toInt ^ 63) := by decide
  have hlow : ∀ (x : Int64), ∀ j < 2, InRange (x.toInt ^ j) := by
    intro x j hj
    obtain rfl | rfl : j = 0 ∨ j = 1 := by omega
    · rw [pow_zero]
      decide
    · rw [pow_one]
      exact inRange_toInt x
  have htable := int64_powerTable_exact.1 [Int64.minValue, 5]
  refine ⟨hrange, (int64_powerTable_exact.2 (-2) 63 hrange).2, ?_, ?_⟩
  · exact (int64_powerTable_exact.1 [Int64.minValue, 0, 0]).1.mpr
      ⟨Int64.minValue, by simp, 2, by decide, by decide⟩
  · cases hV : int64.powerTable [Int64.minValue, 5] with
    | error t =>
      obtain ⟨x, -, j, hj, hout⟩ := htable.1.mp ⟨t, hV⟩
      exact absurd (hlow x j hj) hout
    | ok V => exact ⟨V, rfl, (htable.2.2 V hV).2 0 1 (by decide) (by decide)⟩

end Collocation
