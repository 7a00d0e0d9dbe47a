import LiveRange.Dataflow.Worklist

/-! # Choosing a solver

Both solvers compute the least solution of a problem; they differ in the order of their
visits and in what they count as a step. -/

namespace LiveRange.Dataflow

universe u

/-- How the least solution of a problem is computed. -/
inductive Solver where
  /-- Full passes over all nodes until one changes nothing. -/
  | roundRobin
  /-- Visits only to nodes that a change may concern. -/
  | worklist
deriving DecidableEq

/-- The solver used where none is named. -/
instance : Inhabited Solver := ⟨.worklist⟩

/-- Solves a problem from the given tables.  Fuel counts passes or visits. -/
def Problem.solve {n : Nat} {α : Type u} [DecidableEq α] (p : Problem n α) (solver : Solver)
    (fuel : Nat) (seed : Tables n α) : Run n α :=
  match solver with
  | .roundRobin => p.roundRobin fuel seed
  | .worklist => p.worklist fuel seed

end LiveRange.Dataflow
