import Collocation.Proofs.Samples.Supply
import Mathlib.Data.List.Permutation

/-!
# The order in which samples are supplied

Nodes, values and query points are supplied one after the other, and the first part that is
refused ends the run. Query points are always accepted and take part in no check, so they may
come at any time. Nodes and values are compared with each other by whichever of them comes
second. On a set that has neither, the order of the three parts therefore decides nothing but
which fault is reported when there are two: no values, and nodes with a repetition.
-/

set_option autoImplicit false

namespace Collocation

open List (Perm Sublist)

variable {α : Type}

def Edit.isSample : Edit α → Bool
  | .nodes _ => true
  | .values _ => true
  | _ => false

namespace SampleSet

variable {s : SampleSet α} {e : Edit α} {es fs : List (Edit α)} {xs ys qs : List α} {i j : ℕ}

theorem setValues_setQueries (s : SampleSet α) (ys qs : List α) :
    (s.setQueries qs).setValues ys = (s.setValues ys).map (·.setQueries qs) := by
  conv_rhs => rw [setValues, apply_ite (Except.map _), apply_ite (Except.map _)]
  rfl

def parts (xs ys qs : List α) : List (Edit α) := [.nodes xs, .values ys, .queries qs]

theorem filter_isSample_cases (h : Perm es (parts xs ys qs)) :
    es.filter Edit.isSample = [.nodes xs, .values ys] ∨
      es.filter Edit.isSample = [.values ys, .nodes xs] :=
  List.perm_pair.mp (h.filter Edit.isSample)

theorem exists_queries_of_perm (h : Perm es (parts xs ys qs)) :
    ∃ before after, es = before ++ .queries qs :: after ∧
      before ++ after = es.filter Edit.isSample := by
  have hmem : Edit.queries qs ∈ es := h.mem_iff.mpr (by simp [parts])
  obtain ⟨before, after, rfl⟩ := List.append_of_mem hmem
  have hperm : Perm (before ++ after) [.nodes xs, .values ys] := by
    have hlast : Perm (parts xs ys qs) (.queries qs :: [.nodes xs, .values ys]) :=
      List.perm_append_singleton _ [Edit.nodes xs, Edit.values ys]
    exact (List.perm_middle.symm.trans (h.trans hlast)).cons_inv
  have hsamples : ∀ f ∈ before ++ after, f.isSample = true := by
    intro f hf
    have hpair := hperm.mem_iff.mp hf
    simp only [List.mem_cons, List.not_mem_nil, or_false] at hpair
    rcases hpair with rfl | rfl
    · rfl
    · rfl
  refine ⟨before, after, rfl, ?_⟩
  rw [List.filter_append, List.filter_cons_of_neg (by simp [Edit.isSample]),
    ← List.filter_append, List.filter_eq_self.mpr hsamples]

variable [BEq α]

theorem setNodes_setQueries (s : SampleSet α) (xs qs : List α) :
    (s.setQueries qs).setNodes xs = (s.setNodes xs).map (·.setQueries qs) := by
  have hr : (s.setQueries qs).repetition? xs = s.repetition? xs := rfl
  rw [setNodes, setNodes, hr, apply_ite (Except.map _)]
  cases s.repetition? xs with
  | some p => rfl
  | none =>
    conv_rhs => rw [apply_ite (Except.map _)]
    rfl

theorem edit_setQueries (he : e.isSample = true) (s : SampleSet α) (qs : List α) :
    (s.setQueries qs).edit e = (s.edit e).map (·.setQueries qs) := by
  cases e with
  | nodes xs => exact setNodes_setQueries s xs qs
  | values ys => exact setValues_setQueries s ys qs
  | reset => cases he
  | queries ps => cases he
  | distinct b => cases he

def supply (s : SampleSet α) : List (Edit α) → Except Rejection (SampleSet α)
  | [] => .ok s
  | e :: es => s.edit e >>= (·.supply es)

theorem supply_append (s : SampleSet α) (es fs : List (Edit α)) :
    s.supply (es ++ fs) = s.supply es >>= (·.supply fs) := by
  induction es generalizing s with
  | nil => rfl
  | cons e es ih =>
    rw [List.cons_append, supply, supply]
    cases s.edit e with
    | error r => rfl
    | ok t => exact ih t

theorem supply_setQueries (h : ∀ e ∈ es, e.isSample = true) (s : SampleSet α) (qs : List α) :
    (s.setQueries qs).supply es = (s.supply es).map (·.setQueries qs) := by
  induction es generalizing s with
  | nil => rfl
  | cons e es ih =>
    rw [supply, supply, edit_setQueries (h e (by simp))]
    cases s.edit e with
    | error r => rfl
    | ok t => exact ih (fun f hf => h f (by simp [hf])) t

/-- Wherever the queries stand among samples, they might as well be supplied last. -/
theorem supply_queries_last (h : ∀ e ∈ fs, e.isSample = true) (s : SampleSet α)
    (es : List (Edit α)) (qs : List α) :
    s.supply (es ++ .queries qs :: fs) = (s.supply (es ++ fs)).map (·.setQueries qs) := by
  rw [supply_append, supply_append]
  cases s.supply es with
  | error r => rfl
  | ok t => exact supply_setQueries h t qs

theorem supply_of_perm (h : Perm es (parts xs ys qs)) (s : SampleSet α) :
    s.supply es = (s.supply (es.filter Edit.isSample)).map (·.setQueries qs) := by
  obtain ⟨before, after, hes, hfilter⟩ := exists_queries_of_perm h
  have hafter : ∀ f ∈ after, f.isSample = true := by
    intro f hf
    have hmem : f ∈ es.filter Edit.isSample := by
      rw [← hfilter]
      exact List.mem_append_right before hf
    exact (List.mem_filter.mp hmem).2
  rw [← hfilter, hes, supply_queries_last hafter]

theorem supply_cases (h : Perm es (parts xs ys qs)) (s : SampleSet α) :
    (Sublist [.nodes xs, .values ys] es ∧
        s.supply es = (s.supply [.nodes xs, .values ys]).map (·.setQueries qs)) ∨
      (¬ Sublist [.nodes xs, .values ys] es ∧
        s.supply es = (s.supply [.values ys, .nodes xs]).map (·.setQueries qs)) := by
  rw [supply_of_perm h]
  rcases filter_isSample_cases h with hfirst | hfirst
  · left
    rw [hfirst]
    refine ⟨?_, rfl⟩
    rw [← hfirst]
    exact List.filter_sublist
  · right
    rw [hfirst]
    refine ⟨?_, rfl⟩
    intro hsub
    have hpair := hsub.filter Edit.isSample
    rw [hfirst] at hpair
    have heq := hpair.eq_of_length rfl
    cases heq

theorem supply_pair (s : SampleSet α) (e f : Edit α) :
    s.supply [e, f] = s.edit e >>= (·.edit f) := by
  rw [supply]
  cases s.edit e with
  | error r => rfl
  | ok t => exact bind_pure (t.edit f)

section WithoutValues

/-! If there are no values, every order is refused, and a repetition is seen only if the nodes
come first. -/

theorem supply_without_values (h : Perm es (parts xs [] qs)) (s : SampleSet α) :
    ∃ r, s.supply es = .error r := by
  rcases supply_cases h s with ⟨-, hes⟩ | ⟨-, hes⟩
  · rw [hes, supply_pair]
    change ∃ r, (s.setNodes xs >>= (·.setValues [])).map _ = .error r
    cases s.setNodes xs with
    | error r => exact ⟨r, rfl⟩
    | ok t => exact ⟨.emptyInput, rfl⟩
  · exact ⟨.emptyInput, hes⟩

theorem supply_repeated_nodes_first (h : Perm es (parts xs [] qs))
    (hfirst : Sublist [.nodes xs, .values []] es) (hd : s.distinct = true)
    (hr : IsFirstRepetition xs i j) : s.supply es = .error (.repeatedNode i j) := by
  have hx : xs ≠ [] := List.ne_nil_of_length_pos (Nat.zero_lt_of_lt hr.repeats.2.1)
  have hrep : s.repetition? xs = some (i, j) := repetition?_eq_some_iff.mpr ⟨hd, hr⟩
  have hnodes : s.edit (.nodes xs) = .error (.repeatedNode i j) := setNodes_of_repeated hx hrep
  rcases supply_cases h s with ⟨-, hrun⟩ | ⟨hlater, -⟩
  · rw [hrun, supply_pair, hnodes]
    rfl
  · exact absurd hfirst hlater

theorem supply_no_values_first (h : Perm es (parts xs [] qs))
    (hlater : ¬ Sublist [.nodes xs, .values []] es) : s.supply es = .error .emptyInput := by
  rcases supply_cases h s with ⟨hfirst, -⟩ | ⟨-, hrun⟩
  · exact absurd hfirst hlater
  · exact hrun

end WithoutValues

section Fresh

/-! Sets that have neither nodes nor values. -/

theorem setNodes_bind_setValues_nil (hv : s.values = []) (hr : s.repetition? xs = none) :
    s.setNodes xs >>= (·.setValues []) = .error .emptyInput := by
  by_cases hx : xs = []
  · rw [hx]
    rfl
  · rw [setNodes_of_unmatched hx hv hr]
    rfl

/-- Values that come after the nodes meet the same conditions as values that were there before. -/
theorem setNodes_bind_setValues_of_ne_nil (hv : s.values = []) (hy : ys ≠ []) :
    s.setNodes xs >>= (·.setValues ys) = ({ s with values := ys } : SampleSet α).setNodes xs := by
  by_cases hx : xs = []
  · rw [hx]
    rfl
  cases hr : s.repetition? xs with
  | some p =>
    have hr' : ({ s with values := ys } : SampleSet α).repetition? xs = some p := hr
    rw [setNodes_of_repeated hx hr, setNodes_of_repeated hx hr']
    rfl
  | none =>
    have hr' : ({ s with values := ys } : SampleSet α).repetition? xs = none := hr
    rw [setNodes_of_unmatched hx hv hr]
    change ({ s with nodes := xs } : SampleSet α).setValues ys = _
    by_cases hl : ys.length = xs.length
    · rw [setNodes_of_matched hx hr' hl, setValues_of_matched hx hl]
    · rw [setNodes_of_length_ne hx hr' hy hl, setValues_of_length_ne hx hy hl]

variable (hn : s.nodes = []) (hv : s.values = [])

include hn hv

/-- Nodes and values change places, unless there are no values and the nodes repeat. -/
theorem supply_pair_comm (h : ys ≠ [] ∨ s.repetition? xs = none) :
    s.supply [.nodes xs, .values ys] = s.supply [.values ys, .nodes xs] := by
  rw [supply_pair, supply_pair]
  change s.setNodes xs >>= (·.setValues ys) = s.setValues ys >>= (·.setNodes xs)
  by_cases hy : ys = []
  · subst hy
    rw [setNodes_bind_setValues_nil hv (h.resolve_left (not_not.mpr rfl))]
    rfl
  · rw [setNodes_bind_setValues_of_ne_nil hv hy, setValues_of_unmatched hn hy]
    rfl

theorem supply_eq_of_perm (h : ys ≠ [] ∨ s.repetition? xs = none)
    (hes : Perm es (parts xs ys qs)) :
    s.supply es = (s.supply [.nodes xs, .values ys]).map (·.setQueries qs) := by
  rcases supply_cases hes s with ⟨-, hrun⟩ | ⟨-, hrun⟩
  · exact hrun
  · rw [hrun, supply_pair_comm hn hv h]

end Fresh

structure OrderIndependent (s : SampleSet α) (xs ys qs : List α) : Prop where
  same_set {es fs : List (Edit α)} (hes : Perm es (parts xs ys qs))
    (hfs : Perm fs (parts xs ys qs)) (t : SampleSet α) : s.supply es = .ok t ↔ s.supply fs = .ok t
  same_rejection {es fs : List (Edit α)} (hes : Perm es (parts xs ys qs))
    (hfs : Perm fs (parts xs ys qs))
    (h : ¬ (ys = [] ∧ s.distinct = true ∧ ∃ i j, Repeats xs i j)) : s.supply es = s.supply fs
  nodes_first {es : List (Edit α)} (hes : Perm es (parts xs ys qs)) (hy : ys = [])
    (hd : s.distinct = true) {i j : ℕ} (hr : IsFirstRepetition xs i j)
    (h : Sublist [.nodes xs, .values ys] es) : s.supply es = .error (.repeatedNode i j)
  values_first {es : List (Edit α)} (hes : Perm es (parts xs ys qs)) (hy : ys = [])
    (h : ¬ Sublist [.nodes xs, .values ys] es) : s.supply es = .error .emptyInput

/-- On a set without nodes and values all six orders lead to the same set or are all refused, and
for the same reason, except that a repeated node hides the lack of values from those orders that
supply the nodes before the values. -/
theorem supplied_in_any_order {s : SampleSet α} (hn : s.nodes = []) (hv : s.values = [])
    (xs ys qs : List α) : s.OrderIndependent xs ys qs := by
  constructor
  case same_set =>
    intro es fs hes hfs t
    by_cases hy : ys = []
    · subst hy
      obtain ⟨r, hr⟩ := supply_without_values hes s
      obtain ⟨r', hr'⟩ := supply_without_values hfs s
      simp [hr, hr']
    · rw [supply_eq_of_perm hn hv (Or.inl hy) hes, supply_eq_of_perm hn hv (Or.inl hy) hfs]
  case same_rejection =>
    intro es fs hes hfs h
    have hkind : ys ≠ [] ∨ s.repetition? xs = none := by
      by_cases hy : ys = []
      · exact Or.inr (repetition?_eq_none_iff.mpr fun hrep => h ⟨hy, hrep⟩)
      · exact Or.inl hy
    rw [supply_eq_of_perm hn hv hkind hes, supply_eq_of_perm hn hv hkind hfs]
  case nodes_first =>
    intro es hes hy hd i j hr hfirst
    subst hy
    exact supply_repeated_nodes_first hes hfirst hd hr
  case values_first =>
    intro es hes hy hlater
    subst hy
    exact supply_no_values_first hes hlater

/-- Two equal nodes and no values: the order decides which fault is reported. -/
theorem supplied_in_any_order_two_faults :
    (⟨[], [], [9], true⟩ : SampleSet ℕ).nodes = [] ∧
      (⟨[], [], [9], true⟩ : SampleSet ℕ).values = [] ∧
      (⟨[], [], [9], true⟩ : SampleSet ℕ).supply [.nodes [4, 4], .queries [5], .values []] =
        .error (.repeatedNode 0 1) ∧
      (⟨[], [], [9], true⟩ : SampleSet ℕ).supply [.queries [5], .values [], .nodes [4, 4]] =
        .error .emptyInput := by
  have h := supplied_in_any_order (s := (⟨[], [], [9], true⟩ : SampleSet ℕ)) rfl rfl [4, 4] [] [5]
  have hrep : IsFirstRepetition [4, 4] 0 1 := firstRepetition?_eq_some_iff.mp rfl
  refine ⟨rfl, rfl, ?_, ?_⟩
  · exact h.nodes_first (by decide) rfl rfl hrep (by decide)
  · exact h.values_first (by decide) rfl (by decide)

end SampleSet

end Collocation
