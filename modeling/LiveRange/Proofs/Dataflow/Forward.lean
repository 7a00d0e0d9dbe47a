import LiveRange.Proofs.Dataflow.Fixpoint

/-! # Problems that lead forward only

Where every successor of a node comes after it, as in a body whose jumps all go forward, the nodes
that read a node come before it.  While the worklist takes the nodes from the last to the first,
these are all still due, so a visit makes nothing due anew and one sweep over the nodes is the whole
run (`worklist_of_forward`).

What such a run leaves solves the problem, and there is only one solution: the values of a node follow
from those of later nodes.  So the result does not depend on the seed, and passes need one sweep to
reach it and one to confirm it (`solve_forward`).  Meet and transfers may be any functions. -/

namespace LiveRange.Dataflow

universe u

variable {n : Nat} {α : Type u}

/-! ## The rest of a sweep -/

/-- The nodes that are left of a sweep after a node are those before it. -/
theorem mem_of_lt_of_suffix {i j : Fin n} {rest : List (Fin n)} (h : i :: rest <:+ backward n)
    (h_lt : j < i) : j ∈ rest := by
  obtain ⟨done, h_eq⟩ := h
  have h_sorted : (backward n).Pairwise (· > ·) :=
    List.pairwise_reverse.mpr (List.pairwise_lt_finRange n)
  have h_mem : j ∈ done ++ i :: rest := h_eq ▸ mem_backward j
  rw [← h_eq, List.pairwise_append] at h_sorted
  rcases List.mem_append.mp h_mem with h_done | h_left
  · exact absurd (h_sorted.2.2 j h_done i List.mem_cons_self) h_lt.asymm
  · exact (List.mem_cons.mp h_left).resolve_left h_lt.ne

namespace Worklist

theorem Tidy.foldl_enqueue_of_mem {w : Worklist n α} (h : w.Tidy) {nodes : List (Fin n)}
    (h_mem : ∀ i ∈ nodes, i ∈ w.queue) : nodes.foldl Worklist.enqueue w = w := by
  induction nodes with
  | nil => rfl
  | cons i rest ih =>
    rw [List.forall_mem_cons] at h_mem
    rw [List.foldl_cons, h.enqueue_of_mem h_mem.1]
    exact ih h_mem.2

end Worklist

namespace Problem

/-- Every successor of a node is a node after it. -/
def IsForward (p : Problem n α) : Prop := ∀ i : Fin n, ∀ s ∈ p.succs i, (i : Nat) < s ∧ s < n

variable {p : Problem n α}

theorem IsForward.inRange (h : p.IsForward) : p.InRange := fun i s hs => (h i s hs).2

/-- The values of a node follow from those of the nodes after it, so there is one solution at most. -/
theorem IsForward.eq_of_solves (h : p.IsForward) {t u : Tables n α} (h_t : p.Solves t)
    (h_u : p.Solves u) : t = u := by
  -- from the last node to the first
  have h_left : ∀ (left : Nat) (i : Fin n), n - i = left → t.ins.get i = u.ins.get i := by
    intro left
    induction left using Nat.strongRecOn with
    | ind left ih =>
      intro i h_i
      have h_gather : p.gather t.ins.get i = p.gather u.ins.get i := by
        refine gather_congr i fun s hs => ?_
        have h_after := (h i s hs).1
        exact ih (n - s) (by omega) s rfl
      rw [(h_t i).ins, (h_t i).outs, (h_u i).ins, (h_u i).outs, h_gather]
  exact h_t.eq_of_ins h_u fun i => h_left (n - i) i rfl

variable [DecidableEq α] {preds : Vector (List (Fin n)) n}

/-- A visit in the course of a sweep makes nothing due anew: whatever reads the visited node is still
due. -/
theorem IsForward.step_eq (h : p.IsForward)
    (h_preds : ∀ i s : Fin n, i ∈ preds.get s ↔ (s : Nat) ∈ p.succs i) {w : Worklist n α}
    (h_tidy : w.Tidy) {i : Fin n} {rest : List (Fin n)} (h_queue : w.queue = i :: rest)
    (h_suffix : i :: rest <:+ backward n) :
    p.step preds w i rest = .ok ⟨⟨p.refresh w.progress.tables i, w.progress.visits.push i⟩, rest,
      w.queued.set i false i.isLt⟩ := by
  have h_due : ∀ j ∈ preds.get i, j ∈ rest := by
    intro j hj
    exact mem_of_lt_of_suffix h_suffix (h j i ((h_preds j i).mp hj)).1
  rw [Problem.step_eq h.inRange, (h_tidy.pop h_queue _).foldl_enqueue_of_mem h_due, ite_self]

theorem IsForward.drain_eq (h : p.IsForward)
    (h_preds : ∀ i s : Fin n, i ∈ preds.get s ↔ (s : Nat) ∈ p.succs i) (queue : List (Fin n)) :
    ∀ (w : Worklist n α) (fuel : Nat), w.Tidy → w.queue = queue → queue <:+ backward n →
      queue.length ≤ fuel →
      p.drain preds fuel w = ⟨queue.foldl p.refresh w.progress.tables,
        w.progress.visits.toList ++ queue, w.progress.visits.size + queue.length, .settled⟩ := by
  induction queue with
  | nil =>
    intro w fuel _ h_queue _ _
    rw [drain.eq_def]
    simp [h_queue, Progress.stop]
  | cons i rest ih =>
    intro w fuel h_tidy h_queue h_suffix h_fuel
    obtain ⟨fuel, rfl⟩ : ∃ k, fuel = k + 1 := ⟨fuel - 1, by simp at h_fuel; omega⟩
    have h_rest := ih _ fuel (h_tidy.pop h_queue
      ⟨p.refresh w.progress.tables i, w.progress.visits.push i⟩) rfl
      ((List.suffix_cons i rest).trans h_suffix) (by simpa using h_fuel)
    rw [drain.eq_def]
    simp only [h_queue, h.step_eq h_preds h_tidy h_queue h_suffix, h_rest, List.foldl_cons,
      Array.toList_push, Array.size_push, List.length_cons, List.append_assoc, List.singleton_append,
      Nat.add_assoc, Nat.add_comm 1]

/-- One sweep, with one visit to each node, is the whole run of the worklist. -/
theorem worklist_of_forward (h : p.IsForward) (seed : Tables n α) {fuel : Nat} (h_fuel : n ≤ fuel) :
    p.worklist fuel seed = ⟨(backward n).foldl p.refresh seed, backward n, n, .settled⟩ := by
  obtain ⟨preds, h_eq, h_preds⟩ := predecessors_eq h.inRange
  have h_length : (backward n).length = n := by simp [backward]
  simp only [worklist, h_eq]
  rw [h.drain_eq h_preds (backward n) _ fuel (Worklist.tidy_start seed) rfl List.suffix_rfl
    (by rwa [h_length])]
  simp [Worklist.start, h_length]

theorem IsForward.solves_sweep (h : p.IsForward) (seed : Tables n α) :
    p.Solves ((backward n).foldl p.refresh seed) := by
  have h_run := worklist_of_forward h seed le_rfl
  have h_solves : p.Solves (p.worklist n seed).tables :=
    worklist_settled h.inRange (by rw [h_run])
  rwa [h_run] at h_solves

/-- Passes make one sweep to reach the solution and one to find that nothing changes. -/
theorem roundRobin_of_forward (h : p.IsForward) {seed : Tables n α} (h_seed : ¬ p.Solves seed)
    {fuel : Nat} (h_fuel : 2 ≤ fuel) :
    p.roundRobin fuel seed =
      ⟨(backward n).foldl p.refresh seed, backward n ++ backward n, 2, .settled⟩ := by
  obtain ⟨fuel, rfl⟩ : ∃ k, fuel = k + 1 + 1 := ⟨fuel - 2, by omega⟩
  rw [roundRobin, makePasses_of_not_solves h.inRange (fuel + 1) 0 h_seed,
    makePasses_of_solves h.inRange fuel 1 (h.solves_sweep seed)]
  simp

/-- A problem that leads forward only, be its meet and transfers monotone or not, has one solution,
which both solvers reach from every seed.  A worklist visits every node once, from the last to the
first, and makes no node due again; passes are two, or one where the seed is the solution already. -/
theorem solve_forward (h : p.IsForward) :
    ∃ sol, p.Solves sol ∧ ∀ seed : Tables n α,
      (∀ fuel, n ≤ fuel → p.solve .worklist fuel seed = ⟨sol, backward n, n, .settled⟩) ∧
      (∀ fuel, 2 ≤ fuel → p.solve .roundRobin fuel seed =
        if seed = sol then ⟨sol, backward n, 1, .settled⟩
        else ⟨sol, backward n ++ backward n, 2, .settled⟩) := by
  let sol := (backward n).foldl p.refresh (.const n p.bottom)
  have h_sol : p.Solves sol := h.solves_sweep _
  have h_sweep : ∀ seed, (backward n).foldl p.refresh seed = sol := fun seed =>
    h.eq_of_solves (h.solves_sweep seed) h_sol
  refine ⟨sol, h_sol, fun seed => ⟨fun fuel h_fuel => ?_, fun fuel h_fuel => ?_⟩⟩
  · rw [← h_sweep seed]
    exact worklist_of_forward h seed h_fuel
  · split
    · rename_i h_seed
      subst h_seed
      exact roundRobin_of_solves h.inRange h_sol (Nat.zero_lt_of_lt h_fuel)
    · rename_i h_seed
      have h_unsolved : ¬ p.Solves seed := fun h_solves => h_seed (h.eq_of_solves h_solves h_sol)
      rw [← h_sweep seed]
      exact roundRobin_of_forward h h_unsolved h_fuel

/-- Four nodes, the first of which leads to the third twice, over integers that meet in their
difference.  Transfers turn great values into small ones. -/
def cascade : Problem 4 Int where
  succs i := if i.val = 0 then [2, 1, 2] else if i.val = 3 then [] else [3]
  bottom := 1
  meet a b := b - a
  transfer i a := if a ≤ 0 then 5 - a else i.val - a

theorem solve_forward_cascade :
    cascade.IsForward ∧ ∃ sol, cascade.Solves sol ∧ ∀ seed : Tables 4 Int,
      (∀ fuel, 4 ≤ fuel → cascade.solve .worklist fuel seed = ⟨sol, backward 4, 4, .settled⟩) ∧
      (∀ fuel, 2 ≤ fuel → cascade.solve .roundRobin fuel seed =
        if seed = sol then ⟨sol, backward 4, 1, .settled⟩
        else ⟨sol, backward 4 ++ backward 4, 2, .settled⟩) := by
  have h_forward : cascade.IsForward := by unfold IsForward; decide
  exact ⟨h_forward, solve_forward h_forward⟩

end Problem

end LiveRange.Dataflow
