import Mathlib.Data.Finset.Lattice.Basic
import Mathlib.Data.Fintype.Powerset
import LiveRange.Dataflow.Lattice
import LiveRange.Proofs.Dataflow.LeastSolution

/-! # Seeds from which the solvers stop

What makes a run stop is that it is confined: the seed lies between two bounds of which a round
lowers the one nowhere and raises the other nowhere, and there is one solution at most between them
(`Confined`).  Both bounds then close in on that solution.  So the solvers stop from a seed that a
round lowers nowhere, from one that it raises nowhere, from every seed at or below the least
solution, and from every seed at all where there is one solution only (`solve_stops`).

Monotone equations over values of finite height alone are not enough.  In a `relay` each node hands
on what the node before it holds, and every visit writes over what it finds.  If the first two nodes
hold different sets, the sets go round for ever, whichever solver is used (`solve_relay`). -/

namespace LiveRange.Dataflow.Problem

universe u

variable {n : Nat} {α : Type u}

/-- Given enough fuel, both solvers settle. -/
def Stops [DecidableEq α] (p : Problem n α) (seed : Tables n α) : Prop :=
  ∃ enough, ∀ (solver : Solver) (fuel : Nat), enough ≤ fuel →
    (p.solve solver fuel seed).status = .settled

/-! ## Between two bounds -/

section Order

variable [PartialOrder α] {p : Problem n α} {low high : Fin n → α} {k : Nat} {t u : Tables n α}

/-- The values before the nodes of a table lie between two bounds. -/
def Between (low high : Fin n → α) (t : Tables n α) : Prop :=
  ∀ i, low i ≤ t.ins.get i ∧ t.ins.get i ≤ high i

theorem stops_of_meets [DecidableEq α] (h_range : p.InRange) (h_mono : p.IsMonotone)
    (h : p.Meets low high k) (h_seed : Between low high t) : p.Stops t :=
  ⟨(k + 2) * (n + 1), fun solver _ h_fuel =>
    (solve_of_meets h_range h_mono h h_seed solver h_fuel).1⟩

/-- A round lowers the lower bound nowhere and raises the upper one nowhere, and between the two
there is one solution at most. -/
structure Confined (p : Problem n α) (low high : Fin n → α) : Prop where
  rises : ∀ i, low i ≤ p.advance low i
  falls : ∀ i, p.advance high i ≤ high i
  unique : ∀ t u, p.Solves t → p.Solves u → Between low high t → Between low high u → t = u

theorem iterate_of_rises [WellFoundedGT α] (h_mono : p.IsMonotone)
    (h_rises : ∀ i, low i ≤ p.advance low i) :
    (∀ j i, low i ≤ p.advance^[j] low i) ∧
      ∃ k, ∀ j, k ≤ j → p.advance (p.advance^[j] low) = p.advance^[j] low := by
  have h_rise : ∀ i, Monotone fun j => p.advance^[j] low i := fun i =>
    monotone_nat_of_le_succ fun j => iterate_le_succ h_mono h_rises j i
  obtain ⟨k, h_rest⟩ := exists_rest_of_monotone h_rise
  refine ⟨fun j i => h_rise i (Nat.zero_le j), k, fun j hj => ?_⟩
  rw [← Function.iterate_succ_apply' p.advance, h_rest _ hj, h_rest _ (Nat.le_succ_of_le hj)]

theorem iterate_of_falls [WellFoundedLT α] (h_mono : p.IsMonotone)
    (h_falls : ∀ i, p.advance high i ≤ high i) :
    (∀ j i, p.advance^[j] high i ≤ high i) ∧
      ∃ k, ∀ j, k ≤ j → p.advance (p.advance^[j] high) = p.advance^[j] high := by
  have h_fall : ∀ i, Antitone fun j => p.advance^[j] high i := fun i =>
    antitone_nat_of_succ_le fun j => iterate_succ_le h_mono h_falls j i
  -- upside down, the values rise
  obtain ⟨k, h_rest⟩ := exists_rest_of_monotone (α := αᵒᵈ) h_fall
  refine ⟨fun j i => h_fall i (Nat.zero_le j), k, fun j hj => ?_⟩
  rw [← Function.iterate_succ_apply' p.advance]
  exact (h_rest _ (Nat.le_succ_of_le hj)).trans (h_rest _ hj).symm

/-- Where there is one solution at most between the bounds, the rounds from both come to rest at
it. -/
theorem Confined.exists_meets [WellFoundedGT α] [WellFoundedLT α] (h_mono : p.IsMonotone)
    (h : p.Confined low high) (h_le : ∀ i, low i ≤ high i) : ∃ k, p.Meets low high k := by
  obtain ⟨h_low, k₁, h_rest₁⟩ := iterate_of_rises h_mono h.rises
  obtain ⟨h_high, k₂, h_rest₂⟩ := iterate_of_falls h_mono h.falls
  let k := max k₁ k₂
  have h_order := iterate_le_iterate h_mono h_le k
  have h_same : p.tablesOf (p.advance^[k] low) = p.tablesOf (p.advance^[k] high) := by
    refine h.unique _ _ (tablesOf_solves (h_rest₁ k (le_max_left k₁ k₂)))
      (tablesOf_solves (h_rest₂ k (le_max_right k₁ k₂))) (fun i => ?_) fun i => ?_
    · rw [tablesOf_ins]
      exact ⟨h_low k i, (h_order i).trans (h_high k i)⟩
    · rw [tablesOf_ins]
      exact ⟨(h_low k i).trans (h_order i), h_high k i⟩
  refine ⟨k, h.rises, h.falls, ?_⟩
  rw [← tablesOf_ins p (p.advance^[k] low), h_same, tablesOf_ins]

theorem stops_of_confined [DecidableEq α] [WellFoundedGT α] [WellFoundedLT α] (h_range : p.InRange)
    (h_mono : p.IsMonotone) (h : p.Confined low high) (h_seed : Between low high t) : p.Stops t := by
  obtain ⟨k, h_meets⟩ := h.exists_meets h_mono fun i => (h_seed i).1.trans (h_seed i).2
  exact stops_of_meets h_range h_mono h_meets h_seed

/-! ## Seeds between such bounds -/

theorem stops_of_rises [DecidableEq α] [WellFoundedGT α] (h_range : p.InRange)
    (h_mono : p.IsMonotone) (h_rises : ∀ i, t.ins.get i ≤ p.advance t.ins.get i) : p.Stops t := by
  obtain ⟨h_low, k, h_rest⟩ := iterate_of_rises h_mono h_rises
  have h_end := h_rest k le_rfl
  have h_meets : p.Meets t.ins.get (p.advance^[k] t.ins.get) k :=
    ⟨h_rises, fun i => (congrFun h_end i).le, (Function.iterate_fixed h_end k).symm⟩
  exact stops_of_meets h_range h_mono h_meets fun i => ⟨le_rfl, h_low k i⟩

theorem stops_of_falls [DecidableEq α] [WellFoundedLT α] (h_range : p.InRange)
    (h_mono : p.IsMonotone) (h_falls : ∀ i, p.advance t.ins.get i ≤ t.ins.get i) : p.Stops t := by
  obtain ⟨h_high, k, h_rest⟩ := iterate_of_falls h_mono h_falls
  have h_end := h_rest k le_rfl
  have h_meets : p.Meets (p.advance^[k] t.ins.get) t.ins.get k :=
    ⟨fun i => (congrFun h_end i).ge, h_falls, Function.iterate_fixed h_end k⟩
  exact stops_of_meets h_range h_mono h_meets fun i => ⟨h_high k i, le_rfl⟩

/-- Between `bottom` and the least solution there is no other one. -/
theorem IsLeastSolution.confined (h : p.IsLeastSolution t) (h_bottom : ∀ a, p.bottom ≤ a) :
    p.Confined (fun _ => p.bottom) t.ins.get where
  rises _ := h_bottom _
  falls i := by
    rw [(h.solves i).ins, (h.solves i).outs]
    exact le_rfl
  unique u v h_u h_v h_low h_high := h_u.eq_of_ins h_v fun i =>
    -- both are as low as the least solution
    (le_antisymm (h_low i).2 (h.least u h_u i).1).trans
      (le_antisymm (h.least v h_v i).1 (h_high i).2)

end Order

section Lattice

variable [Lattice α] [WellFoundedGT α] {p : Problem n α}

theorem exists_isTop [Nonempty α] : ∃ top : α, IsTop top := by
  obtain ⟨top, -, h_max⟩ := wellFounded_gt.has_min (Set.univ : Set α) Set.univ_nonempty
  have h_isMax : IsMax top := isMax_iff_forall_not_lt.mpr fun a => h_max a (Set.mem_univ a)
  exact ⟨top, h_isMax.isTop⟩

/-- Where the equations have one solution at most, all tables lie between bounds that close in. -/
theorem exists_confined (h_bottom : ∀ a, p.bottom ≤ a)
    (h_unique : ∀ t u, p.Solves t → p.Solves u → t = u) :
    ∃ low high, p.Confined low high ∧ ∀ t, Between low high t := by
  have : Nonempty α := ⟨p.bottom⟩
  obtain ⟨top, h_top⟩ := exists_isTop (α := α)
  exact ⟨fun _ => p.bottom, fun _ => top,
    ⟨fun _ => h_bottom _, fun _ => h_top _, fun t u h_t h_u _ _ => h_unique t u h_t h_u⟩,
    fun t i => ⟨h_bottom _, h_top _⟩⟩

/-- Over a lattice in which no value rises or falls for ever, with a least `bottom` and monotone
meet and transfers, both solvers stop from every seed that lies between bounds with one solution at
most between them.  Such are the seeds that a round lowers nowhere, those that it raises nowhere,
those at or below the least solution, and all seeds where there is one solution only. -/
theorem solve_stops [DecidableEq α] [WellFoundedLT α] (h_range : p.InRange) (h_mono : p.IsMonotone)
    (h_bottom : ∀ a, p.bottom ≤ a) :
    (∀ low high, p.Confined low high → ∀ seed, Between low high seed → p.Stops seed) ∧
      (∀ seed : Tables n α, (∀ i, seed.ins.get i ≤ p.advance seed.ins.get i) → p.Stops seed) ∧
      (∀ seed : Tables n α, (∀ i, p.advance seed.ins.get i ≤ seed.ins.get i) → p.Stops seed) ∧
      (∀ sol, p.IsLeastSolution sol →
        ∀ seed : Tables n α, (∀ i, seed.ins.get i ≤ sol.ins.get i) → p.Stops seed) ∧
      ((∀ t u, p.Solves t → p.Solves u → t = u) → ∀ seed, p.Stops seed) := by
  refine ⟨fun low high h seed => stops_of_confined h_range h_mono h,
    fun seed => stops_of_rises h_range h_mono, fun seed => stops_of_falls h_range h_mono,
    fun sol h_least seed h_seed => ?_, fun h_unique seed => ?_⟩
  · exact stops_of_confined h_range h_mono (h_least.confined h_bottom)
      fun i => ⟨h_bottom _, h_seed i⟩
  · obtain ⟨low, high, h_confined, h_between⟩ := exists_confined h_bottom h_unique
    exact stops_of_confined h_range h_mono h_confined (h_between seed)

end Lattice

theorem solve_stops_twoCycle :
    twoCycle.InRange ∧ twoCycle.IsMonotone ∧ (∀ a, twoCycle.bottom ≤ a) ∧
      (∀ low high, twoCycle.Confined low high → ∀ seed, Between low high seed →
        twoCycle.Stops seed) ∧
      (∀ seed : Tables 2 (Fin 3), (∀ i, seed.ins.get i ≤ twoCycle.advance seed.ins.get i) →
        twoCycle.Stops seed) ∧
      (∀ seed : Tables 2 (Fin 3), (∀ i, twoCycle.advance seed.ins.get i ≤ seed.ins.get i) →
        twoCycle.Stops seed) ∧
      (∀ sol, twoCycle.IsLeastSolution sol →
        ∀ seed : Tables 2 (Fin 3), (∀ i, seed.ins.get i ≤ sol.ins.get i) → twoCycle.Stops seed) ∧
      ((∀ t u, twoCycle.Solves t → twoCycle.Solves u → t = u) → ∀ seed, twoCycle.Stops seed) := by
  have h_range : twoCycle.InRange := by unfold InRange; decide
  have h_mono : twoCycle.IsMonotone := by
    refine ⟨fun h₁ h₂ => max_le_max h₁ h₂, ?_⟩
    decide
  have h_bottom : ∀ a, twoCycle.bottom ≤ a := by decide
  exact ⟨h_range, h_mono, h_bottom, solve_stops h_range h_mono h_bottom⟩

/-! ## A seed from which no run stops -/

/-- The node before a node on a ring of three. -/
def before (i : Fin 3) : Fin 3 := ⟨(i + 2) % 3, Nat.mod_lt _ (Nat.succ_pos 2)⟩

/-- The node after a node on a ring of three. -/
def after (i : Fin 3) : Fin 3 := ⟨(i + 1) % 3, Nat.mod_lt _ (Nat.succ_pos 2)⟩

theorem ring_of_three (i : Fin 3) : after i ≠ i ∧ before i ≠ i ∧ after i ≠ before i ∧
    before (before i) = after i ∧ after (before i) = i := by
  decide +revert

/-- Three nodes on a ring, each of which hands on the set of the node before it. -/
def relay (β : Type) [DecidableEq β] : Problem 3 (Finset β) :=
  genKill (fun i => [(before i : Nat)]) (fun _ => ∅) fun _ => ∅

section Relay

variable {β : Type} [DecidableEq β]

theorem inRange_relay : (relay β).InRange := by
  intro i s hs
  rw [List.mem_singleton.mp hs]
  exact (before i).isLt

theorem isMonotone_relay : (relay β).IsMonotone where
  meet := Finset.union_subset_union
  transfer _ _ _ h :=
    Finset.union_subset_union_right (Finset.sdiff_subset_sdiff h (Finset.Subset.refl ∅))

theorem gather_relay (ins : Fin 3 → Finset β) (i : Fin 3) :
    (relay β).gather ins i = ins (before i) := by
  simp [gather, relay, genKill]

theorem ins_refresh_relay (t : Tables 3 (Finset β)) (i j : Fin 3) :
    ((relay β).refresh t i).ins.get j = if j = i then t.ins.get (before i) else t.ins.get j := by
  by_cases h : j = i
  · subst h
    rw [refresh_ins_self, gather_relay]
    simp [relay, genKill]
  · rw [refresh_ins_of_ne _ t h, if_neg h]

theorem ins_eq_of_holds_relay {t : Tables 3 (Finset β)} {i : Fin 3} (h : (relay β).Holds t i) :
    t.ins.get i = t.ins.get (before i) := by
  have h_refresh := ins_refresh_relay t i i
  rwa [(refresh_eq_self_iff _ t i).mpr h, if_pos rfl] at h_refresh

theorem pass_relay (t : Tables 3 (Finset β)) :
    ((backward 3).foldl (relay β).refresh t).ins.get 0 = t.ins.get 1 ∧
      ((backward 3).foldl (relay β).refresh t).ins.get 1 = t.ins.get 0 := by
  have h_backward : backward 3 = [2, 1, 0] := rfl
  have h_before : before 0 = 2 ∧ before 1 = 0 ∧ before 2 = 1 := by decide
  simp only [h_backward, List.foldl_cons, List.foldl_nil, ins_refresh_relay, h_before, Fin.reduceEq,
    ↓reduceIte, and_self]

/-- A pass swaps the sets of the first two nodes, so these never agree. -/
theorem makePasses_relay (fuel : Nat) : ∀ (passes : Nat) (progress : Progress 3 (Finset β)),
    progress.tables.ins.get 0 ≠ progress.tables.ins.get 1 →
      ((relay β).makePasses fuel passes progress).status = .outOfFuel := by
  induction fuel with
  | zero => exact fun _ _ _ => rfl
  | succ fuel ih =>
    intro passes progress h_ne
    have h_solves : ¬ (relay β).Solves progress.tables := fun h =>
      h_ne (ins_eq_of_holds_relay (h 1)).symm
    -- a pass that goes on leaves the first two nodes with each other's sets
    obtain ⟨h_first, h_second⟩ := pass_relay progress.tables
    rw [makePasses_of_not_solves inRange_relay fuel passes h_solves]
    refine ih _ _ fun h_same => h_ne ?_
    rw [← h_first, ← h_second, h_same]

/-- A node and the node before it are due, of which the one holds what the node after it does, and
the other something else. -/
structure Turning (w : Worklist 3 (Finset β)) (i : Fin 3) : Prop extends w.Tidy where
  queue : w.queue = [i, before i]
  same : w.progress.tables.ins.get i = w.progress.tables.ins.get (after i)
  differ : w.progress.tables.ins.get (before i) ≠ w.progress.tables.ins.get i

theorem predecessors_relay :
    ∃ preds, (relay β).predecessors = .ok preds ∧ ∀ i, preds.get i = [after i] := by
  refine ⟨#v[[1], [2], [0]], rfl, ?_⟩
  decide

/-- A visit to the first due node gives it the set of the one before it, which is due next, and
makes the node after it due. -/
theorem Turning.step {preds : Vector (List (Fin 3)) 3} (h_preds : ∀ i, preds.get i = [after i])
    {w : Worklist 3 (Finset β)} {i : Fin 3} (h : Turning w i) :
    ∃ w', (relay β).step preds w i [before i] = .ok w' ∧ Turning w' (before i) := by
  obtain ⟨h_after, h_before, h_apart, h_twice, h_back⟩ := ring_of_three i
  have h_holds : ¬ (relay β).Holds w.progress.tables i := fun h_holds =>
    h.differ (ins_eq_of_holds_relay h_holds).symm
  have h_popped := h.toTidy.pop h.queue
    ⟨(relay β).refresh w.progress.tables i, w.progress.visits.push i⟩
  have h_new : after i ∉ [before i] := fun h_mem => h_apart (List.mem_singleton.mp h_mem)
  -- the turn passes to the node before, and the node after it is the one just visited
  refine ⟨_, ?_, h_popped.enqueue (after i), ?_, ?_, ?_⟩
  · rw [step_eq inRange_relay, if_neg h_holds, h_preds]
    rfl
  · rw [h_popped.enqueue_of_notMem h_new, h_twice]
    rfl
  · rw [Worklist.enqueue_progress, ins_refresh_relay, ins_refresh_relay, h_back, if_pos rfl,
      if_neg h_before]
  · rw [Worklist.enqueue_progress, ins_refresh_relay, ins_refresh_relay, h_twice, if_neg h_after,
      if_neg h_before, ← h.same]
    exact h.differ.symm

theorem drain_of_turning {preds : Vector (List (Fin 3)) 3} (h_preds : ∀ i, preds.get i = [after i])
    (fuel : Nat) : ∀ (w : Worklist 3 (Finset β)) (i : Fin 3), Turning w i →
      ((relay β).drain preds fuel w).status = .outOfFuel := by
  induction fuel with
  | zero =>
    intro w i h
    rw [drain.eq_def, h.queue]
    rfl
  | succ fuel ih =>
    intro w i h
    obtain ⟨w', h_step, h'⟩ := h.step h_preds
    rw [drain.eq_def, h.queue]
    simp only [h_step]
    exact ih w' _ h'

theorem worklist_relay {seed : Tables 3 (Finset β)} (h_ne : seed.ins.get 0 ≠ seed.ins.get 1)
    (fuel : Nat) : ((relay β).worklist fuel seed).status = .outOfFuel := by
  obtain ⟨preds, h_eq, h_preds⟩ := predecessors_relay (β := β)
  have h_queue : (Worklist.start seed).queue = [2, 1, 0] := rfl
  simp only [worklist, h_eq]
  cases fuel with
  | zero =>
    rw [drain.eq_def, h_queue]
    rfl
  | succ fuel =>
    -- the last node is visited first, and the node after it is due already
    let popped : Worklist 3 (Finset β) :=
      ⟨⟨(relay β).refresh seed 2, #[2]⟩, [1, 0], (Vector.replicate 3 true).set 2 false⟩
    have h_popped : popped.Tidy := (Worklist.tidy_start seed).pop h_queue _
    have h_due : popped.enqueue (after 2) = popped :=
      h_popped.enqueue_of_mem (List.mem_cons_of_mem 1 List.mem_cons_self)
    have h_step : (relay β).step preds (.start seed) 2 [1, 0] = .ok popped := by
      rw [step_eq inRange_relay, h_preds, List.foldl_cons, List.foldl_nil]
      show Except.ok (if _ then popped else popped.enqueue (after 2)) = _
      rw [h_due, ite_self]
    rw [drain.eq_def, h_queue]
    simp only [h_step]
    refine drain_of_turning h_preds fuel popped 1 ⟨h_popped, rfl, ?_, ?_⟩
    · show ((relay β).refresh seed 2).ins.get 1 = ((relay β).refresh seed 2).ins.get 2
      rw [ins_refresh_relay, ins_refresh_relay]
      rfl
    · show ((relay β).refresh seed 2).ins.get 0 ≠ ((relay β).refresh seed 2).ins.get 1
      rw [ins_refresh_relay, ins_refresh_relay]
      exact h_ne

/-- Where the first two nodes hold different sets, no run ever stops. -/
theorem solve_relay {seed : Tables 3 (Finset β)} (h_ne : seed.ins.get 0 ≠ seed.ins.get 1)
    (solver : Solver) (fuel : Nat) : ((relay β).solve solver fuel seed).status = .outOfFuel := by
  cases solver with
  | roundRobin => exact makePasses_relay fuel 0 ⟨seed, #[]⟩ h_ne
  | worklist => exact worklist_relay h_ne fuel

end Relay

/-- One of the three nodes of a relay holds a hundred numbers, the others none. -/
def oneFull : Tables 3 (Finset (Fin 100)) := ⟨#v[Finset.univ, ∅, ∅], .replicate 3 ∅⟩

/-- The values of a relay of finite sets form a lattice of finite height, its meet and transfers are
monotone and `bottom` is the least value.  Yet from `oneFull` neither solver ever stops. -/
theorem solve_relay_oneFull :
    (relay (Fin 100)).InRange ∧ (relay (Fin 100)).IsMonotone ∧
      (∀ a, (relay (Fin 100)).bottom ≤ a) ∧ Finite (Finset (Fin 100)) ∧
      ∀ (solver : Solver) (fuel : Nat),
        ((relay (Fin 100)).solve solver fuel oneFull).status = .outOfFuel := by
  have h_ne : oneFull.ins.get 0 ≠ oneFull.ins.get 1 := Finset.univ_nonempty.ne_empty
  exact ⟨inRange_relay, isMonotone_relay, Finset.empty_subset, inferInstance, solve_relay h_ne⟩

end LiveRange.Dataflow.Problem
