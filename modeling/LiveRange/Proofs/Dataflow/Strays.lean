import Mathlib.Data.List.Sort
import LiveRange.Proofs.Dataflow.Passes
import LiveRange.Proofs.Dataflow.Queue

/-! # Successors that are no nodes

A table of successors may lead outside the graph (`Problem.stray?`).  The solvers come upon it in
opposite orders: the worklist when it lists the predecessors, from the first node on and before it
visits any, and full passes when they read a node, from the last node down.  A pass goes through the
nodes above before it breaks off, and it is the first pass in any case: whether a pass changes anything
is looked at when it is through. -/

namespace LiveRange.Dataflow

universe u

variable {n : Nat} {α : Type u}

/-! ## The nodes above a node -/

/-- In an ordered list those members stand before a member that are before it in the order. -/
theorem mem_before_iff {r : Fin n → Fin n → Prop} [Std.Asymm r] {nodes before after : List (Fin n)}
    (h_sorted : nodes.Pairwise r) {i j : Fin n} (h_nodes : nodes = before ++ i :: after)
    (hj : j ∈ nodes) : j ∈ before ↔ r j i := by
  subst h_nodes
  obtain ⟨_, h_tail, h_cross⟩ := List.pairwise_append.mp h_sorted
  refine ⟨fun h_mem => h_cross j h_mem i List.mem_cons_self, fun h_rel => ?_⟩
  rcases List.mem_append.mp hj with h_mem | h_mem
  · exact h_mem
  · rcases List.mem_cons.mp h_mem with rfl | h_mem
    · exact absurd h_rel (Std.Asymm.asymm j j h_rel)
    · exact absurd h_rel (Std.Asymm.asymm i j (List.rel_of_pairwise_cons h_tail h_mem))

theorem pairwise_backward (n : Nat) : (backward n).Pairwise (· > ·) :=
  List.pairwise_reverse.mpr (List.pairwise_lt_finRange n)

/-- The nodes that a pass visits before a node. -/
def above (i : Fin n) : List (Fin n) := (backward n).filter (i < ·)

theorem mem_above {i j : Fin n} : j ∈ above i ↔ i < j := by
  simp [above, mem_backward]

theorem eq_above {before after : List (Fin n)} {i : Fin n} (h : backward n = before ++ i :: after) :
    before = above i := by
  have h_sorted := pairwise_backward n
  have h_before : before.Pairwise (· > ·) := by
    rw [h] at h_sorted
    exact (List.pairwise_append.mp h_sorted).1
  refine h_before.eq_of_mem_iff (h_sorted.filter _) fun {j} => ?_
  exact (mem_before_iff h_sorted h (mem_backward j)).trans mem_above.symm

namespace Problem

variable {p : Problem n α} {i : Fin n} {s : Nat}

/-! ## Strays -/

/-- The first successor of a node that is no node. -/
def stray? (p : Problem n α) (i : Fin n) : Option Nat := (p.succs i).find? (n ≤ ·)

theorem stray?_eq_none : p.stray? i = none ↔ ∀ s ∈ p.succs i, s < n := by
  simp [stray?, List.find?_eq_none]

/-- In whatever order the nodes are gone through, one is the first that has a stray. -/
theorem exists_first_stray (h : ¬ p.InRange) {nodes : List (Fin n)} (h_all : ∀ i, i ∈ nodes) :
    ∃ before i after s, nodes = before ++ i :: after ∧ p.stray? i = some s ∧
      ∀ j ∈ before, p.stray? j = none := by
  have h_some : ((nodes.find? fun i => (p.stray? i).isSome)).isSome = true := by
    by_contra h_none
    refine h fun i => stray?_eq_none.mp ?_
    rw [Option.not_isSome_iff_eq_none, List.find?_eq_none] at h_none
    exact Option.not_isSome_iff_eq_none.mp (h_none i (h_all i))
  obtain ⟨i, h_find⟩ := Option.isSome_iff_exists.mp h_some
  obtain ⟨h_stray, before, after, h_nodes, h_before⟩ := List.find?_eq_some_iff_append.mp h_find
  obtain ⟨s, h_s⟩ := Option.isSome_iff_exists.mp h_stray
  refine ⟨before, i, after, s, h_nodes, h_s, fun j hj => ?_⟩
  simpa using h_before j hj

theorem exists_lowest_stray (h : ¬ p.InRange) :
    ∃ i s, p.stray? i = some s ∧ ∀ j < i, p.stray? j = none := by
  obtain ⟨before, i, after, s, h_nodes, h_stray, h_before⟩ := exists_first_stray h List.mem_finRange
  exact ⟨i, s, h_stray, fun j h_lt => h_before j
    ((mem_before_iff (List.pairwise_lt_finRange n) h_nodes (List.mem_finRange j)).mpr h_lt)⟩

theorem exists_highest_stray (h : ¬ p.InRange) :
    ∃ i s, p.stray? i = some s ∧ ∀ j, i < j → p.stray? j = none := by
  obtain ⟨before, i, after, s, h_nodes, h_stray, h_before⟩ := exists_first_stray h mem_backward
  exact ⟨i, s, h_stray, fun j h_lt => h_before j
    ((mem_before_iff (pairwise_backward n) h_nodes (mem_backward j)).mpr h_lt)⟩

theorem not_lt_of_stray (h : p.stray? i = some s) : ¬ s < n := by
  have h_le := List.find?_some h
  exact not_lt.mpr (of_decide_eq_true h_le)

theorem read_of_stray (h : p.stray? i = some s) (ins : Vector α n) :
    p.read ins i = .error ⟨s, n⟩ := by
  refine foldlM_eq_error h (fun value s' h_good => ?_) (fun value => ?_) p.bottom
  · exact ⟨_, dif_pos (not_le.mp (of_decide_eq_false h_good))⟩
  · exact dif_neg (not_lt_of_stray h)

/-! ## The predecessors -/

/-- The predecessors are listed up to the first stray of the first node that has one. -/
theorem predecessors_of_stray (h : p.stray? i = some s) (h_below : ∀ j < i, p.stray? j = none) :
    p.predecessors = .error ⟨s, n⟩ := by
  have h_row : ∀ j, ((p.succs j).map (j, ·)).find? (fun e => decide (n ≤ e.2)) =
      (p.stray? j).map (j, ·) := by
    intro j
    rw [List.find?_map]
    rfl
  have h_first : p.edges.find? (fun e => decide (n ≤ e.2)) = some (i, s) := by
    obtain ⟨before, after, h_nodes⟩ := List.append_of_mem (List.mem_finRange i)
    have h_none : (before.flatMap fun j => (p.succs j).map (j, ·)).find?
        (fun e => decide (n ≤ e.2)) = none := by
      rw [List.find?_flatMap, List.findSome?_eq_none_iff]
      intro j hj
      have h_lt : j < i :=
        (mem_before_iff (List.pairwise_lt_finRange n) h_nodes (List.mem_finRange j)).mp hj
      rw [h_row, h_below j h_lt, Option.map_none]
    rw [edges, h_nodes, List.flatMap_append, List.flatMap_cons, List.find?_append, h_none,
      Option.none_or, List.find?_append, h_row, h]
    rfl
  refine foldlM_eq_error h_first (fun preds e h_good => ?_) (fun preds => ?_) _
  · exact ⟨_, dif_pos (not_le.mp (of_decide_eq_false h_good))⟩
  · exact dif_neg (not_lt_of_stray h)

theorem inRange_of_predecessors {preds : Vector (List (Fin n)) n} (h : p.predecessors = .ok preds) :
    p.InRange := by
  by_contra h_range
  obtain ⟨i, s, h_stray, h_below⟩ := exists_lowest_stray h_range
  rw [predecessors_of_stray h_stray h_below] at h
  cases h

variable [DecidableEq α]

theorem worklist_of_stray (h : p.stray? i = some s) (h_below : ∀ j < i, p.stray? j = none)
    (fuel : Nat) (seed : Tables n α) :
    p.worklist fuel seed = ⟨seed, [], 0, .outOfRange ⟨s, n⟩⟩ := by
  rw [worklist, predecessors_of_stray h h_below]
  rfl

/-! ## The first pass -/

theorem sweep_append (nodes more : List (Fin n)) (progress : Progress n α) (changed : Bool) :
    p.sweep (nodes ++ more) progress changed =
      match p.sweep nodes progress changed with
      | ⟨progress, changed, none⟩ => p.sweep more progress changed
      | pass => pass := by
  induction nodes generalizing progress changed with
  | nil => rfl
  | cons i rest ih =>
    rw [List.cons_append, sweep, sweep]
    cases p.visit progress i with
    | ok result => exact ih result.1 (changed || result.2)
    | error e => rfl

theorem sweep_of_stray (h : p.stray? i = some s) (rest : List (Fin n)) (progress : Progress n α)
    (changed : Bool) : p.sweep (i :: rest) progress changed = ⟨progress, changed, some ⟨s, n⟩⟩ := by
  have h_visit : p.visit progress i = .error ⟨s, n⟩ := by
    rw [visit, read_of_stray h]
    rfl
  rw [sweep, h_visit]

theorem roundRobin_of_stray (h : p.stray? i = some s) (h_above : ∀ j, i < j → p.stray? j = none)
    (fuel : Nat) (seed : Tables n α) :
    p.roundRobin (fuel + 1) seed =
      ⟨(above i).foldl p.refresh seed, above i, 1, .outOfRange ⟨s, n⟩⟩ := by
  obtain ⟨before, after, h_nodes⟩ := List.append_of_mem (mem_backward i)
  have h_before := eq_above h_nodes
  subst h_before
  have h_lt : ∀ j ∈ above i, ∀ s ∈ p.succs j, s < n := fun j hj =>
    stray?_eq_none.mp (h_above j (mem_above.mp hj))
  rw [roundRobin, makePasses, h_nodes, sweep_append, sweep_of_lt h_lt]
  simp only [sweep_of_stray h]
  simp [Progress.stop]

/-! ## Successors that are nodes -/

theorem makePasses_in_range (h_range : p.InRange) (fuel : Nat) :
    ∀ (passes : Nat) (progress : Progress n α) (e : OutOfRange),
      (p.makePasses fuel passes progress).status ≠ .outOfRange e := by
  induction fuel with
  | zero => simp [makePasses, Progress.stop]
  | succ fuel ih =>
    intro passes progress e
    by_cases h_solves : p.Solves progress.tables
    · simp [makePasses_of_solves h_range fuel passes h_solves]
    · rw [makePasses_of_not_solves h_range fuel passes h_solves]
      exact ih _ _ e

theorem drain_in_range (h_range : p.InRange) (preds : Vector (List (Fin n)) n) (fuel : Nat) :
    ∀ (w : Worklist n α) (e : OutOfRange), (p.drain preds fuel w).status ≠ .outOfRange e := by
  induction fuel with
  | zero =>
    intro w e
    rw [drain.eq_def]
    cases w.queue <;> simp [Progress.stop]
  | succ fuel ih =>
    intro w e
    rw [drain.eq_def]
    cases w.queue with
    | nil => simp [Progress.stop]
    | cons i rest =>
      simp only [step_eq h_range]
      exact ih _ e

theorem solve_in_range (h_range : p.InRange) (solver : Solver) (fuel : Nat) (seed : Tables n α)
    (e : OutOfRange) : (p.solve solver fuel seed).status ≠ .outOfRange e := by
  cases solver with
  | roundRobin => exact makePasses_in_range h_range fuel 0 _ e
  | worklist =>
    obtain ⟨preds, h_preds, _⟩ := predecessors_eq h_range
    simp only [solve, worklist, h_preds]
    exact drain_in_range h_range preds fuel _ e

end Problem

end LiveRange.Dataflow
