import Collocation.Linear.PowerTable

/-!
# Sample sets

A sample set holds nodes, the values at the nodes, the query points, and a switch that asks
for distinct nodes. Its parts are supplied one at a time and in any order. Each part is
checked when it is supplied, as far as the parts present allow; a part that is refused leaves
the set as it was. Validation checks the whole set, with the switch as it stands then.
-/

set_option autoImplicit false

namespace Collocation

structure SampleSet (α : Type) where
  nodes : List α
  values : List α
  queries : List α
  distinct : Bool
  deriving DecidableEq, Repr

inductive Edit (α : Type) where
  | reset
  | nodes (xs : List α)
  | values (ys : List α)
  | queries (xs : List α)
  | distinct (b : Bool)
  deriving DecidableEq, Repr

namespace SampleSet

variable {α : Type}

def empty : SampleSet α := ⟨[], [], [], true⟩

def setQueries (s : SampleSet α) (xs : List α) : SampleSet α := { s with queries := xs }

def setDistinct (s : SampleSet α) (b : Bool) : SampleSet α := { s with distinct := b }

def setValues (s : SampleSet α) (ys : List α) : Except Rejection (SampleSet α) :=
  if ys.isEmpty then .error .emptyInput
  else if s.nodes.length ≠ 0 ∧ ys.length ≠ s.nodes.length then
    .error (.unequalLength s.nodes.length ys.length)
  else .ok { s with values := ys }

variable [BEq α]

def repetition? (s : SampleSet α) (xs : List α) : Option (Nat × Nat) :=
  if s.distinct then firstRepetition? xs else none

def setNodes (s : SampleSet α) (xs : List α) : Except Rejection (SampleSet α) :=
  if xs.isEmpty then .error .emptyInput
  else match s.repetition? xs with
    | some p => .error (.repeatedNode p.1 p.2)
    | none =>
      if s.values.length ≠ 0 ∧ s.values.length ≠ xs.length then
        .error (.unequalLength xs.length s.values.length)
      else .ok { s with nodes := xs }

def validate (s : SampleSet α) : Except Rejection Unit :=
  if s.nodes.isEmpty || s.values.isEmpty then .error .emptyInput
  else if s.nodes.length ≠ s.values.length then
    .error (.unequalLength s.nodes.length s.values.length)
  else match s.repetition? s.nodes with
    | some p => .error (.repeatedNode p.1 p.2)
    | none => .ok ()

def edit (s : SampleSet α) : Edit α → Except Rejection (SampleSet α)
  | .reset => .ok empty
  | .nodes xs => s.setNodes xs
  | .values ys => s.setValues ys
  | .queries xs => .ok (s.setQueries xs)
  | .distinct b => .ok (s.setDistinct b)

def step (s : SampleSet α) (e : Edit α) : SampleSet α :=
  match s.edit e with
  | .ok t => t
  | .error _ => s

def steps (s : SampleSet α) : List (Edit α) → SampleSet α
  | [] => s
  | e :: es => (s.step e).steps es

theorem steps_append (s : SampleSet α) (es fs : List (Edit α)) :
    s.steps (es ++ fs) = (s.steps es).steps fs := by
  induction es generalizing s with
  | nil => rfl
  | cons e es ih => exact ih _

def ofSamples (xs ys : List α) : Except Rejection (SampleSet α) := do
  let s ← empty.setNodes xs
  s.setValues ys

end SampleSet

end Collocation
