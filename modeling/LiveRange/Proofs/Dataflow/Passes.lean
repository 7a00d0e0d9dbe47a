import LiveRange.Proofs.Dataflow.Equations

/-! # Passes reach the solution

Where every successor is a node, a pass visits all nodes and changes nothing exactly when
the tables solve the problem.  Each pass takes the rows one stage further in a
`Problem.Plan`, so at most one pass more than the plan has stages is made, and the tables
are then the planned solution. -/

namespace LiveRange.Dataflow

universe u

variable {n : Nat} {α : Type u}

theorem mem_backward (i : Fin n) : i ∈ backward n :=
  List.mem_reverse.mpr (List.mem_finRange i)

namespace Problem

variable {p : Problem n α}

/-! ## One pass -/

theorem foldl_refresh_eq_self {t : Tables n α} {nodes : List (Fin n)}
    (h : ∀ i ∈ nodes, p.Holds t i) : nodes.foldl p.refresh t = t := by
  induction nodes with
  | nil => rfl
  | cons i rest ih =>
    rw [List.foldl_cons, (refresh_eq_self_iff p t i).mpr (h i List.mem_cons_self)]
    exact ih fun j hj => h j (List.mem_cons_of_mem i hj)

/-- Visits to all nodes of a list give their rows the next property. -/
theorem Improves.foldl_refresh {P Q : RowProp n α} (h : p.Improves P Q) (nodes : List (Fin n))
    {t : Tables n α} (h_all : t.All P) (h_rest : ∀ i, i ∉ nodes → t.Row Q i) :
    (nodes.foldl p.refresh t).All Q := by
  induction nodes generalizing t with
  | nil => exact fun i => h_rest i List.not_mem_nil
  | cons i rest ih =>
    -- what a row has gained it keeps through the visits to the other nodes
    refine ih (h.all_refresh h_all i) fun j hj => h.row_refresh h_all i ?_
    by_cases hji : j = i
    · exact .inl hji
    · exact .inr (h_rest j fun h_mem => (List.mem_cons.mp h_mem).elim hji hj)

variable [DecidableEq α]

/-- Where every successor is a node, visits in a row refresh the tables one node after the
other, and report a change unless the equations hold at every one of the nodes. -/
theorem sweep_of_lt {nodes : List (Fin n)} (h_lt : ∀ i ∈ nodes, ∀ s ∈ p.succs i, s < n)
    (progress : Progress n α) (changed : Bool) :
    p.sweep nodes progress changed =
      ⟨⟨nodes.foldl p.refresh progress.tables, progress.visits ++ nodes⟩,
        changed || nodes.any fun i => !decide (p.Holds progress.tables i), none⟩ := by
  induction nodes generalizing progress changed with
  | nil => simp [sweep]
  | cons i rest ih =>
    rw [List.forall_mem_cons] at h_lt
    rw [sweep, visit_of_lt h_lt.1]
    simp only [ih h_lt.2, List.foldl_cons]
    -- where the equations hold, the rest of the pass starts from the same tables
    by_cases hi : p.Holds progress.tables i
    · simp [hi, (refresh_eq_self_iff p _ i).mpr hi]
    · simp [hi]

theorem sweep_eq (h_range : p.InRange) (nodes : List (Fin n)) (progress : Progress n α)
    (changed : Bool) :
    p.sweep nodes progress changed =
      ⟨⟨nodes.foldl p.refresh progress.tables, progress.visits ++ nodes⟩,
        changed || nodes.any fun i => !decide (p.Holds progress.tables i), none⟩ :=
  sweep_of_lt (fun i _ => h_range i) progress changed

/-! ## All passes -/

theorem makePasses_of_solves (h_range : p.InRange) (fuel passes : Nat) {progress : Progress n α}
    (h_solves : p.Solves progress.tables) :
    p.makePasses (fuel + 1) passes progress =
      ⟨progress.tables, (progress.visits ++ backward n).toList, passes + 1, .settled⟩ := by
  have h_holds : ∀ i ∈ backward n, p.Holds progress.tables i := fun i _ => h_solves i
  have h_unchanged : ((backward n).any fun i => !decide (p.Holds progress.tables i)) = false := by
    simpa using h_holds
  rw [makePasses, sweep_eq h_range, foldl_refresh_eq_self h_holds, h_unchanged]
  rfl

theorem makePasses_of_not_solves (h_range : p.InRange) (fuel passes : Nat)
    {progress : Progress n α} (h_solves : ¬ p.Solves progress.tables) :
    p.makePasses (fuel + 1) passes progress =
      p.makePasses fuel (passes + 1)
        ⟨(backward n).foldl p.refresh progress.tables, progress.visits ++ backward n⟩ := by
  obtain ⟨i, hi⟩ := not_forall.mp h_solves
  have h_changed : ((backward n).any fun i => !decide (p.Holds progress.tables i)) = true :=
    List.any_eq_true.mpr ⟨i, mem_backward i, by simp [hi]⟩
  rw [makePasses, sweep_eq h_range, h_changed]
  rfl

/-- The last pass has found every equation to hold. -/
theorem makePasses_settled (h_range : p.InRange) :
    ∀ (fuel passes : Nat) (progress : Progress n α),
      (p.makePasses fuel passes progress).status = .settled →
        p.Solves (p.makePasses fuel passes progress).tables := by
  intro fuel
  induction fuel with
  | zero => exact fun passes progress h_status => nomatch h_status
  | succ fuel ih =>
    intro passes progress h_status
    by_cases h_solves : p.Solves progress.tables
    · rw [makePasses_of_solves h_range fuel passes h_solves]
      exact h_solves
    · rw [makePasses_of_not_solves h_range fuel passes h_solves] at h_status ⊢
      exact ih _ _ h_status

/-- A solver that starts after stage `k` of a plan and has a pass for each stage left, and
one more, settles on the planned solution. -/
theorem makePasses_of_plan {P : Nat → RowProp n α} {m : Nat} {sol : Tables n α}
    (h_range : p.InRange) (h_plan : p.Plan P m sol) :
    ∀ (fuel passes k : Nat) (progress : Progress n α), k ≤ m → m < k + fuel →
      progress.tables.All (P k) →
      (p.makePasses fuel passes progress).status = .settled ∧
        (p.makePasses fuel passes progress).tables = sol ∧
        (p.makePasses fuel passes progress).steps ≤ passes + (m - k) + 1 := by
  intro fuel
  induction fuel with
  | zero =>
    intro passes k progress hk h_fuel
    omega
  | succ fuel ih =>
    intro passes k progress hk h_fuel h_all
    by_cases h_solves : p.Solves progress.tables
    · rw [makePasses_of_solves h_range fuel passes h_solves]
      exact ⟨rfl, h_plan.eq_of_solves hk h_all h_solves, by simp⟩
    · -- the last stage is the solution, so there is a stage left
      have h_more : k < m := by
        refine Nat.lt_of_le_of_ne hk ?_
        intro h_last
        subst h_last
        exact h_solves (h_plan.last _ h_all ▸ h_plan.solves)
      have h_next := (h_plan.improves k h_more).foldl_refresh (backward n) h_all
        fun i hi => absurd (mem_backward i) hi
      rw [makePasses_of_not_solves h_range fuel passes h_solves]
      obtain ⟨h_status, h_tables, h_steps⟩ := ih (passes + 1) (k + 1)
        ⟨_, progress.visits ++ backward n⟩ h_more (by omega) h_next
      exact ⟨h_status, h_tables, by omega⟩

/-- A solver that starts from a solution makes one pass. -/
theorem roundRobin_of_solves (h_range : p.InRange) {seed : Tables n α} (h_solves : p.Solves seed)
    {fuel : Nat} (h_fuel : 0 < fuel) :
    p.roundRobin fuel seed = ⟨seed, backward n, 1, .settled⟩ := by
  obtain ⟨fuel, rfl⟩ := Nat.exists_eq_succ_of_ne_zero (Nat.ne_of_gt h_fuel)
  rw [roundRobin, makePasses_of_solves h_range fuel 0 h_solves]
  simp

theorem roundRobin_of_plan {P : Nat → RowProp n α} {m : Nat} {sol seed : Tables n α}
    (h_range : p.InRange) (h_plan : p.Plan P m sol) (h_seed : seed.All (P 0)) {fuel : Nat}
    (h_fuel : m < fuel) :
    (p.roundRobin fuel seed).status = .settled ∧ (p.roundRobin fuel seed).tables = sol ∧
      (p.roundRobin fuel seed).steps ≤ m + 1 := by
  have h := makePasses_of_plan h_range h_plan fuel 0 0 ⟨seed, #[]⟩ (Nat.zero_le m) (by omega) h_seed
  exact ⟨h.1, h.2.1, by have := h.2.2; simp only [roundRobin]; omega⟩

end Problem

end LiveRange.Dataflow
