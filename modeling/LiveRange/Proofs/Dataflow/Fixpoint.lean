import LiveRange.Proofs.Dataflow.LeastSolution

/-! # What a solver settles on

A solver that settles has found a solution, whatever the problem and wherever it started
(`solves_of_settled`).  No order of the values is needed: a pass that changes nothing has found all
equations to hold, and on a worklist the equations hold at every node that is not due.

So nothing is left to do for a second run of either solver, which takes no more steps than it needs
to confirm the tables (`solve_fixpoint`). -/

namespace LiveRange.Dataflow.Problem

universe u

variable {n : Nat} {α : Type u} [DecidableEq α] {p : Problem n α} {solver : Solver} {fuel : Nat}
  {seed : Tables n α}

theorem worklist_settled (h_range : p.InRange) (h_status : (p.worklist fuel seed).status = .settled) :
    p.Solves (p.worklist fuel seed).tables := by
  obtain ⟨preds, h_eq, h_preds⟩ := predecessors_eq h_range
  simp only [worklist, h_eq] at h_status ⊢
  exact drain_settled h_range h_preds fuel _ (consistent_start seed) h_status

theorem solves_of_settled (h_range : p.InRange)
    (h_status : (p.solve solver fuel seed).status = .settled) :
    p.Solves (p.solve solver fuel seed).tables := by
  cases solver with
  | roundRobin => exact makePasses_settled h_range fuel 0 ⟨seed, #[]⟩ h_status
  | worklist => exact worklist_settled h_range h_status

/-- Where every successor is a node, a solver that settles leaves tables that solve the problem, be
its meet and transfers monotone or not.  From these tables either solver ends with the same ones:
passes after the first, and a worklist after one visit to each node, from the last to the first. -/
theorem solve_fixpoint (h_range : p.InRange)
    (h_status : (p.solve solver fuel seed).status = .settled) :
    p.Solves (p.solve solver fuel seed).tables ∧
      ∀ (again : Solver) (more : Nat), again.stepsToConfirm n ≤ more →
        p.solve again more (p.solve solver fuel seed).tables =
          ⟨(p.solve solver fuel seed).tables, backward n, again.stepsToConfirm n, .settled⟩ := by
  have h_solves := solves_of_settled h_range h_status
  exact ⟨h_solves, fun again more h_more => solve_of_solves h_range h_solves again h_more⟩

/-- Three nodes with a cycle and a loop, over integers that meet in their difference.  The first
node turns great values into small ones. -/
def differences : Problem 3 Int where
  succs i := if i.val = 0 then [1] else if i.val = 1 then [2, 2, 0] else [2]
  bottom := 3
  meet a b := b - a
  transfer i a := if i.val = 0 then (if 0 ≤ a then 0 else 1) else if i.val = 1 then a + 3 else 7

theorem solve_fixpoint_differences :
    differences.InRange ∧ (differences.solve .worklist 10 (.const 3 9)).status = .settled ∧
      differences.Solves (differences.solve .worklist 10 (.const 3 9)).tables ∧
      ∀ (again : Solver) (more : Nat), again.stepsToConfirm 3 ≤ more →
        differences.solve again more (differences.solve .worklist 10 (.const 3 9)).tables =
          ⟨(differences.solve .worklist 10 (.const 3 9)).tables, backward 3, again.stepsToConfirm 3,
            .settled⟩ := by
  have h_range : differences.InRange := by unfold InRange; decide
  have h_status : (differences.solve .worklist 10 (.const 3 9)).status = .settled := by decide
  exact ⟨h_range, h_status, solve_fixpoint h_range h_status⟩

end LiveRange.Dataflow.Problem
