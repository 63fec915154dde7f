import Collocation.Proofs.Samples.Supply
import Mathlib.Data.List.Induction

/-!
# What edits keep

A sample set is reached from the empty set by a list of edits, refused ones among them. Nodes
and values agree in number as soon as there are both, and from then on only a reset changes that
number. Nodes are distinct unless the switch was off at some time since the last reset. The
switch stands as it was set last, and is on after a reset. What validation says of such a set
follows from the edits since the last reset and the nodes.
-/

set_option autoImplicit false

namespace Collocation

variable {α : Type} [BEq α]

namespace SampleSet

variable {s t : SampleSet α} {e : Edit α} {es : List (Edit α)}
  {P : SampleSet α → Edit α → Prop} {n i j : ℕ}

inductive Yields (s : SampleSet α) : Edit α → SampleSet α → Prop where
  | reset : Yields s .reset empty
  | nodes {xs : List α} (accepted : s.setNodes xs = .ok { s with nodes := xs }) (some : xs ≠ [])
      (distinct : s.repetition? xs = none)
      (matched : s.values = [] ∨ s.values.length = xs.length) :
      Yields s (.nodes xs) { s with nodes := xs }
  | nodesRefused {xs : List α} {r : Rejection} (refused : s.setNodes xs = .error r) :
      Yields s (.nodes xs) s
  | values {ys : List α} (accepted : s.setValues ys = .ok { s with values := ys })
      (some : ys ≠ []) (matched : s.nodes = [] ∨ ys.length = s.nodes.length) :
      Yields s (.values ys) { s with values := ys }
  | valuesRefused {ys : List α} {r : Rejection} (refused : s.setValues ys = .error r) :
      Yields s (.values ys) s
  | queries {xs : List α} : Yields s (.queries xs) (s.setQueries xs)
  | distinct {b : Bool} : Yields s (.distinct b) (s.setDistinct b)

theorem yields_step (s : SampleSet α) (e : Edit α) : Yields s e (s.step e) := by
  cases e with
  | reset => exact .reset
  | queries xs => exact .queries
  | distinct b => exact .distinct
  | nodes xs =>
    rw [step, edit]
    cases h : s.setNodes xs with
    | error r => exact .nodesRefused h
    | ok t =>
      obtain ⟨hn, hr, hl, rfl⟩ := setNodes_eq_ok_iff.mp h
      exact .nodes h hn hr hl
  | values ys =>
    rw [step, edit]
    cases h : s.setValues ys with
    | error r => exact .valuesRefused h
    | ok t =>
      obtain ⟨hn, hl, rfl⟩ := setValues_eq_ok_iff.mp h
      exact .values h hn hl

theorem steps_concat (s : SampleSet α) (es : List (Edit α)) (e : Edit α) :
    s.steps (es ++ [e]) = (s.steps es).step e :=
  steps_append s es [e]

section History

/-! The edits since the last reset, each with the set to which it was applied. -/

/-- Since the last reset there was an edit that satisfies `P` together with the set it found. -/
def SinceReset (P : SampleSet α → Edit α → Prop) (es : List (Edit α)) : Prop :=
  ∃ before e after, es = before ++ e :: after ∧ .reset ∉ after ∧ P (empty.steps before) e

def AcceptsNodes (s : SampleSet α) : Edit α → Prop
  | .nodes xs => ∃ t, s.setNodes xs = .ok t
  | _ => False

def AcceptsValues (s : SampleSet α) : Edit α → Prop
  | .values ys => ∃ t, s.setValues ys = .ok t
  | _ => False

def SwitchesOff (_ : SampleSet α) : Edit α → Prop
  | .distinct b => b = false
  | _ => False

def KeepsSwitch : Edit α → Prop
  | .reset => False
  | .distinct _ => False
  | _ => True

/-- The last setting of the switch turned it off, and there was no reset since. -/
def SwitchedOff (es : List (Edit α)) : Prop :=
  ∃ before after, es = before ++ .distinct false :: after ∧ ∀ e ∈ after, KeepsSwitch e

theorem not_sinceReset_nil : ¬ SinceReset P [] := by
  intro h
  obtain ⟨before, e, after, hes, -⟩ := h
  simp at hes

omit [BEq α] in
/-- Of the edits that satisfy `P` where they stand, and after which all edits satisfy `Q`: the last
edit of all may be such a one, or it satisfies `Q` and there is one before it. -/
theorem exists_since_concat {Q : Edit α → Prop} {P : List (Edit α) → Edit α → Prop} :
    (∃ before f after, es ++ [e] = before ++ f :: after ∧ (∀ g ∈ after, Q g) ∧ P before f) ↔
      P es e ∨ Q e ∧ ∃ before f after, es = before ++ f :: after ∧ (∀ g ∈ after, Q g) ∧
        P before f := by
  constructor
  · intro h
    obtain ⟨before, f, after, hes, hafter, hP⟩ := h
    cases after using List.reverseRecOn with
    | nil =>
      obtain ⟨rfl, hlast⟩ := List.append_inj' hes rfl
      obtain rfl := List.singleton_inj.mp hlast
      exact Or.inl hP
    | append_singleton after f' =>
      rw [← List.cons_append, ← List.append_assoc] at hes
      obtain ⟨rfl, hlast⟩ := List.append_inj' hes rfl
      obtain rfl := List.singleton_inj.mp hlast
      rw [List.forall_mem_append, List.forall_mem_singleton] at hafter
      exact Or.inr ⟨hafter.2, before, f, after, rfl, hafter.1, hP⟩
  · intro h
    cases h with
    | inl hP => exact ⟨es, e, [], rfl, List.forall_mem_nil Q, hP⟩
    | inr h =>
      obtain ⟨hQ, before, f, after, rfl, hafter, hP⟩ := h
      refine ⟨before, f, after ++ [e], by simp, ?_, hP⟩
      rw [List.forall_mem_append, List.forall_mem_singleton]
      exact ⟨hafter, hQ⟩

theorem sinceReset_concat :
    SinceReset P (es ++ [e]) ↔ P (empty.steps es) e ∨ e ≠ .reset ∧ SinceReset P es := by
  have hreset : ∀ after : List (Edit α), .reset ∉ after ↔ ∀ g ∈ after, g ≠ .reset := fun _ =>
    List.forall_mem_ne'.symm
  simp only [SinceReset, hreset]
  exact exists_since_concat (P := fun before f => P (empty.steps before) f)

omit [BEq α] in
theorem switchedOff_concat :
    SwitchedOff (es ++ [e]) ↔ e = .distinct false ∨ KeepsSwitch e ∧ SwitchedOff es := by
  have hlast : ∀ es : List (Edit α), SwitchedOff es ↔ ∃ before f after,
      es = before ++ f :: after ∧ (∀ g ∈ after, KeepsSwitch g) ∧ f = .distinct false := by
    intro es
    constructor
    · intro h
      obtain ⟨before, after, hes, hafter⟩ := h
      exact ⟨before, _, after, hes, hafter, rfl⟩
    · intro h
      obtain ⟨before, _, after, hes, hafter, rfl⟩ := h
      exact ⟨before, after, hes, hafter⟩
  rw [hlast, hlast]
  exact exists_since_concat (P := fun _ f => f = .distinct false)

end History

/-! There are nodes exactly if some were accepted since the last reset, and likewise values. -/

theorem Yields.nodes_ne_nil_iff (h : Yields s e t) :
    t.nodes ≠ [] ↔ AcceptsNodes s e ∨ e ≠ .reset ∧ s.nodes ≠ [] := by
  cases h with
  | reset => simp [AcceptsNodes, empty]
  | nodes accepted some => simp [AcceptsNodes, accepted, some]
  | nodesRefused refused => simp [AcceptsNodes, refused]
  | values => simp [AcceptsNodes]
  | valuesRefused => simp [AcceptsNodes]
  | queries => simp [AcceptsNodes, setQueries]
  | distinct => simp [AcceptsNodes, setDistinct]

theorem Yields.values_ne_nil_iff (h : Yields s e t) :
    t.values ≠ [] ↔ AcceptsValues s e ∨ e ≠ .reset ∧ s.values ≠ [] := by
  cases h with
  | reset => simp [AcceptsValues, empty]
  | nodes => simp [AcceptsValues]
  | nodesRefused => simp [AcceptsValues]
  | values accepted some => simp [AcceptsValues, accepted, some]
  | valuesRefused refused => simp [AcceptsValues, refused]
  | queries => simp [AcceptsValues, setQueries]
  | distinct => simp [AcceptsValues, setDistinct]

theorem nodes_steps_ne_nil_iff (es : List (Edit α)) :
    (empty.steps es).nodes ≠ [] ↔ SinceReset AcceptsNodes es := by
  induction es using List.reverseRecOn with
  | nil => simp [not_sinceReset_nil, steps, empty]
  | append_singleton es e ih =>
    rw [steps_concat, (yields_step _ e).nodes_ne_nil_iff, sinceReset_concat, ih]

theorem values_steps_ne_nil_iff (es : List (Edit α)) :
    (empty.steps es).values ≠ [] ↔ SinceReset AcceptsValues es := by
  induction es using List.reverseRecOn with
  | nil => simp [not_sinceReset_nil, steps, empty]
  | append_singleton es e ih =>
    rw [steps_concat, (yields_step _ e).values_ne_nil_iff, sinceReset_concat, ih]

theorem Yields.distinct_eq_false_iff (h : Yields s e t) :
    t.distinct = false ↔ e = .distinct false ∨ KeepsSwitch e ∧ s.distinct = false := by
  cases h with
  | reset => simp [KeepsSwitch, empty]
  | nodes => simp [KeepsSwitch]
  | nodesRefused => simp [KeepsSwitch]
  | values => simp [KeepsSwitch]
  | valuesRefused => simp [KeepsSwitch]
  | queries => simp [KeepsSwitch, setQueries]
  | distinct => simp [KeepsSwitch, setDistinct]

/-- The edits alone say how the switch stands: it is on unless its last setting was to off. -/
theorem distinct_steps_eq_false_iff (es : List (Edit α)) :
    (empty.steps es).distinct = false ↔ SwitchedOff es := by
  induction es using List.reverseRecOn with
  | nil => simp [SwitchedOff, steps, empty]
  | append_singleton es e ih =>
    rw [steps_concat, (yields_step _ e).distinct_eq_false_iff, switchedOff_concat, ih]

def Matched (s : SampleSet α) : Prop :=
  s.nodes ≠ [] → s.values ≠ [] → s.nodes.length = s.values.length

theorem Yields.matched (h : Yields s e t) (hs : s.Matched) : t.Matched := by
  cases h with
  | reset =>
    intro hn
    exact absurd rfl hn
  | nodes _ _ _ matched =>
    intro _ hv
    exact (matched.resolve_left hv).symm
  | nodesRefused => exact hs
  | values _ _ matched =>
    intro hn _
    exact (matched.resolve_left hn).symm
  | valuesRefused => exact hs
  | queries => exact hs
  | distinct => exact hs

theorem matched_steps (es : List (Edit α)) : (empty.steps es).Matched := by
  induction es using List.reverseRecOn with
  | nil =>
    intro hn
    exact absurd rfl hn
  | append_singleton es e ih =>
    rw [steps_concat]
    exact (yields_step _ e).matched ih

def HasLength (s : SampleSet α) (n : ℕ) : Prop := s.nodes.length = n ∧ s.values.length = n

theorem Yields.hasLength (h : Yields s e t) (he : e ≠ .reset) (hn : n ≠ 0)
    (hs : s.HasLength n) : t.HasLength n := by
  have hnodes : s.nodes ≠ [] := List.length_pos_iff.mp (by have := hs.1; omega)
  have hvalues : s.values ≠ [] := List.length_pos_iff.mp (by have := hs.2; omega)
  cases h with
  | reset => exact absurd rfl he
  | nodes _ _ _ matched => exact ⟨(matched.resolve_left hvalues).symm.trans hs.2, hs.2⟩
  | nodesRefused => exact hs
  | values _ _ matched => exact ⟨hs.1, (matched.resolve_left hnodes).trans hs.1⟩
  | valuesRefused => exact hs
  | queries => exact hs
  | distinct => exact hs

theorem HasLength.steps (hn : n ≠ 0) (hs : s.HasLength n) {fs : List (Edit α)}
    (hfs : .reset ∉ fs) : (s.steps fs).HasLength n := by
  induction fs generalizing s with
  | nil => exact hs
  | cons f fs ih =>
    simp only [List.mem_cons, not_or] at hfs
    exact ih ((yields_step s f).hasLength (Ne.symm hfs.1) hn hs) hfs.2

def Strict (s : SampleSet α) : Prop := s.distinct = true ∧ firstRepetition? s.nodes = none

theorem strict_empty : (empty : SampleSet α).Strict := ⟨rfl, rfl⟩

theorem Yields.strict (h : Yields s e t) (he : ¬ SwitchesOff s e) (hs : e ≠ .reset → s.Strict) :
    t.Strict := by
  cases h with
  | reset => exact strict_empty
  | nodes _ _ distinct =>
    have hold := hs (by simp)
    rw [repetition?, if_pos hold.1] at distinct
    exact ⟨hold.1, distinct⟩
  | nodesRefused => exact hs (by simp)
  | values => exact hs (by simp)
  | valuesRefused => exact hs (by simp)
  | queries => exact hs (by simp)
  | distinct => exact ⟨by simpa [SwitchesOff, setDistinct] using he, (hs (by simp)).2⟩

theorem strict_steps (es : List (Edit α)) (h : ¬ SinceReset SwitchesOff es) :
    (empty.steps es).Strict := by
  induction es using List.reverseRecOn with
  | nil => exact strict_empty
  | append_singleton es e ih =>
    rw [sinceReset_concat, not_or] at h
    rw [steps_concat]
    exact (yields_step _ e).strict h.1 fun he => ih fun hoff => h.2 ⟨he, hoff⟩

section Validation

/-! Validation of a set whose nodes and values agree in number. -/

/-- Validation looks for missing parts and then for a repetition, and finds nothing else. -/
theorem Matched.validate_cases (hs : s.Matched) :
    ((s.nodes = [] ∨ s.values = []) ∧ s.validate = .error .emptyInput) ∨
    (s.nodes ≠ [] ∧ s.values ≠ []) ∧
      ((∃ p, s.repetition? s.nodes = some p ∧ s.validate = .error (.repeatedNode p.1 p.2)) ∨
        s.repetition? s.nodes = none ∧ s.validate = .ok ()) := by
  by_cases hempty : s.nodes = [] ∨ s.values = []
  · exact Or.inl ⟨hempty, validate_of_incomplete hempty⟩
  · rw [not_or] at hempty
    have hvalid := validate_of_matched hempty.1 (hs hempty.1 hempty.2).symm
    cases hr : s.repetition? s.nodes with
    | some p =>
      rw [hr] at hvalid
      exact Or.inr ⟨hempty, Or.inl ⟨p, rfl, hvalid⟩⟩
    | none =>
      rw [hr] at hvalid
      exact Or.inr ⟨hempty, Or.inr ⟨rfl, hvalid⟩⟩

theorem Matched.validate_ne_unequalLength (hs : s.Matched) (k l : ℕ) :
    s.validate ≠ .error (.unequalLength k l) := by
  rcases hs.validate_cases with ⟨-, hv⟩ | ⟨-, ⟨p, -, hv⟩ | ⟨-, hv⟩⟩ <;> simp [hv]

theorem Matched.validate_eq_emptyInput_iff (hs : s.Matched) :
    s.validate = .error .emptyInput ↔ s.nodes = [] ∨ s.values = [] := by
  rcases hs.validate_cases with ⟨h, hv⟩ | ⟨h, ⟨p, -, hv⟩ | ⟨-, hv⟩⟩ <;> simp [hv, h]

theorem Matched.validate_eq_repeatedNode_iff (hs : s.Matched) :
    s.validate = .error (.repeatedNode i j) ↔ (s.nodes ≠ [] ∧ s.values ≠ []) ∧
      s.distinct = true ∧ IsFirstRepetition s.nodes i j := by
  rw [← repetition?_eq_some_iff]
  rcases hs.validate_cases with ⟨h, hv⟩ | ⟨h, ⟨p, hr, hv⟩ | ⟨hr, hv⟩⟩
  · simp [hv, ← not_or, h]
  · simp [hv, h, hr, Prod.ext_iff]
  · simp [hv, hr]

theorem Matched.validate_eq_ok_iff (hs : s.Matched) :
    s.validate = .ok () ↔ (s.nodes ≠ [] ∧ s.values ≠ []) ∧
      ¬ (s.distinct = true ∧ ∃ i j, Repeats s.nodes i j) := by
  rw [← repetition?_eq_none_iff]
  rcases hs.validate_cases with ⟨h, hv⟩ | ⟨h, ⟨p, hr, hv⟩ | ⟨hr, hv⟩⟩
  · simp [hv, ← not_or, h]
  · simp [hv, hr]
  · simp [hv, h, hr]

end Validation

structure ConsistentWith (s : SampleSet α) (es : List (Edit α)) : Prop where
  equal_length (hn : s.nodes ≠ []) (hv : s.values ≠ []) : s.nodes.length = s.values.length
  length_kept (hn : s.nodes ≠ []) (hv : s.values ≠ []) (fs : List (Edit α))
    (hfs : .reset ∉ fs) :
    (s.steps fs).nodes.length = s.nodes.length ∧ (s.steps fs).values.length = s.values.length
  distinct_nodes (h : ¬ SinceReset SwitchesOff es) (i j : ℕ) : ¬ Repeats s.nodes i j
  never_unequal (k l : ℕ) : s.validate ≠ .error (.unequalLength k l)
  incomplete_iff : s.validate = .error .emptyInput ↔
    ¬ SinceReset AcceptsNodes es ∨ ¬ SinceReset AcceptsValues es
  repeated_iff (i j : ℕ) : s.validate = .error (.repeatedNode i j) ↔
    (SinceReset AcceptsNodes es ∧ SinceReset AcceptsValues es) ∧
      s.distinct = true ∧ IsFirstRepetition s.nodes i j
  valid_iff : s.validate = .ok () ↔
    (SinceReset AcceptsNodes es ∧ SinceReset AcceptsValues es) ∧
      ¬ (s.distinct = true ∧ ∃ i j, Repeats s.nodes i j)
  switched_off_iff : s.distinct = false ↔ SwitchedOff es

/-- Every set that edits lead to is consistent with them, whatever the equality of nodes is. -/
theorem edited_consistently (es : List (Edit α)) : (empty.steps es).ConsistentWith es := by
  have hmatched := matched_steps es
  have hnodes := nodes_steps_ne_nil_iff es
  have hvalues := values_steps_ne_nil_iff es
  constructor
  case equal_length => exact hmatched
  case length_kept =>
    intro hn hv fs hfs
    have hlen := hmatched hn hv
    have hkept := HasLength.steps (mt List.length_eq_zero_iff.mp hn) ⟨rfl, hlen.symm⟩ hfs
    exact ⟨hkept.1, hkept.2.trans hlen⟩
  case distinct_nodes =>
    intro h
    exact firstRepetition?_eq_none_iff.mp (strict_steps es h).2
  case never_unequal => exact hmatched.validate_ne_unequalLength
  case incomplete_iff =>
    rw [hmatched.validate_eq_emptyInput_iff, ← hnodes, ← hvalues, not_not, not_not]
  case repeated_iff =>
    intro i j
    rw [hmatched.validate_eq_repeatedNode_iff, hnodes, hvalues]
  case valid_iff => rw [hmatched.validate_eq_ok_iff, hnodes, hvalues]
  case switched_off_iff => exact distinct_steps_eq_false_iff es

/-! The switch counts as it stands at validation: nodes accepted without it may fail later. -/

example : ((empty : SampleSet ℕ).steps
    [.distinct false, .nodes [1, 1], .values [5, 6], .nodes [7], .distinct true]).validate =
      .error (.repeatedNode 0 1) := rfl

end SampleSet

end Collocation
