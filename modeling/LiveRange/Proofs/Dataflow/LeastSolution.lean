import Mathlib.Data.Fintype.Basic
import Mathlib.Data.Finset.Lattice.Fold
import Mathlib.Order.OrderIsoNat
import Mathlib.Order.Fin.Basic
import LiveRange.Proofs.Dataflow.Passes
import LiveRange.Proofs.Dataflow.Queue

/-! # The least solution

Over ordered values, with a monotone meet and monotone transfers, the equations of a problem
have a least solution as soon as no value can rise for ever:

* `Problem.ascend` — the values before the nodes after so many rounds from `bottom`, each of
  which computes all of them anew at once;
* `Problem.squeeze` — the plan by which both solvers follow the rounds.  A seed need not lie
  below what its first visits make of it, so values may fall as well as rise.  What carries
  the argument is that they stay between what the rounds make of two tables, one below the seed
  and one above it: whenever every node has been visited, or had nothing to gain, both bounds
  move one round on.  Below the least solution these are `bottom` and that solution.

The main statement is that both solvers settle on the least solution, from every seed whose
values before the nodes lie at or below it. -/

namespace LiveRange.Dataflow

universe u

variable {n : Nat} {α : Type u}

/-- The steps in which a solver finds that tables on `n` nodes solve the problem: one pass, or
one visit to every node. -/
def Solver.stepsToConfirm (n : Nat) : Solver → Nat
  | .roundRobin => 1
  | .worklist => n

theorem Solver.stepsToConfirm_le (n : Nat) (solver : Solver) : solver.stepsToConfirm n ≤ n + 1 := by
  cases solver with
  | roundRobin => exact Nat.le_add_left 1 n
  | worklist => exact Nat.le_succ n

namespace Problem

/-- A solver that starts from a solution visits every node once and keeps the tables. -/
theorem solve_of_solves [DecidableEq α] {p : Problem n α} (h_range : p.InRange)
    {seed : Tables n α} (h_solves : p.Solves seed) (solver : Solver) {fuel : Nat}
    (h_fuel : solver.stepsToConfirm n ≤ fuel) :
    p.solve solver fuel seed = ⟨seed, backward n, solver.stepsToConfirm n, .settled⟩ := by
  cases solver with
  | roundRobin => exact roundRobin_of_solves h_range h_solves h_fuel
  | worklist => exact worklist_of_solves h_range h_solves h_fuel

structure IsMonotone [Preorder α] (p : Problem n α) : Prop where
  meet : ∀ {a b c d : α}, a ≤ b → c ≤ d → p.meet a c ≤ p.meet b d
  transfer : ∀ i {a b : α}, a ≤ b → p.transfer i a ≤ p.transfer i b

/-- The tables solve the problem, and every other solution lies at or above them. -/
structure IsLeastSolution [Preorder α] (p : Problem n α) (t : Tables n α) : Prop where
  solves : p.Solves t
  least : ∀ u : Tables n α, p.Solves u → ∀ i,
    t.ins.get i ≤ u.ins.get i ∧ t.outs.get i ≤ u.outs.get i

/-! ## Rounds -/

def advance (p : Problem n α) (ins : Fin n → α) : Fin n → α :=
  fun i => p.transfer i (p.gather ins i)

/-- The values before the nodes after so many rounds from `bottom`. -/
def ascend (p : Problem n α) : Nat → Fin n → α
  | 0 => fun _ => p.bottom
  | k + 1 => p.advance (p.ascend k)

theorem ascend_eq_iterate (p : Problem n α) (k : Nat) :
    p.ascend k = p.advance^[k] fun _ => p.bottom := by
  induction k with
  | zero => rfl
  | succ k ih => rw [ascend, ih, Function.iterate_succ_apply']

/-- The tables with the given values before the nodes, and their meets after. -/
def tablesOf (p : Problem n α) (ins : Fin n → α) : Tables n α :=
  ⟨.ofFn ins, .ofFn (p.gather ins)⟩

@[simp] theorem tablesOf_ins (p : Problem n α) (ins : Fin n → α) : (p.tablesOf ins).ins.get = ins :=
  funext fun i => Vector.getElem_ofFn i.isLt

@[simp] theorem tablesOf_outs (p : Problem n α) (ins : Fin n → α) :
    (p.tablesOf ins).outs.get = p.gather ins :=
  funext fun i => Vector.getElem_ofFn i.isLt

theorem tablesOf_solves {p : Problem n α} {ins : Fin n → α} (h : p.advance ins = ins) :
    p.Solves (p.tablesOf ins) := by
  intro i
  constructor
  · rw [tablesOf_outs, tablesOf_ins]
  · rw [tablesOf_outs, tablesOf_ins]
    exact (congrFun h i).symm

section Order

variable [Preorder α] {p : Problem n α}

theorem gather_le_gather (h_mono : p.IsMonotone) {f g : Fin n → α} (h : ∀ i, f i ≤ g i) (i : Fin n) :
    p.gather f i ≤ p.gather g i := by
  -- by induction on the successors, from any two values in order
  have h_fold : ∀ (succs : List Nat) (a b : α), a ≤ b →
      succs.foldl (fun value s => if h : s < n then p.meet value (f ⟨s, h⟩) else value) a ≤
        succs.foldl (fun value s => if h : s < n then p.meet value (g ⟨s, h⟩) else value) b := by
    intro succs
    induction succs with
    | nil => exact fun a b hab => hab
    | cons s rest ih =>
      intro a b hab
      apply ih
      by_cases hs : s < n
      · simp only [hs, ↓reduceDIte]
        exact h_mono.meet hab (h ⟨s, hs⟩)
      · simpa only [hs, ↓reduceDIte] using hab
  exact h_fold (p.succs i) _ _ le_rfl

theorem advance_le_advance (h_mono : p.IsMonotone) {f g : Fin n → α} (h : ∀ i, f i ≤ g i) (i : Fin n) :
    p.advance f i ≤ p.advance g i :=
  h_mono.transfer i (gather_le_gather h_mono h i)

theorem ascend_le_succ (h_mono : p.IsMonotone) (h_bottom : ∀ a, p.bottom ≤ a) (k : Nat) :
    ∀ i, p.ascend k i ≤ p.ascend (k + 1) i := by
  induction k with
  | zero => exact fun i => h_bottom _
  | succ k ih => exact advance_le_advance h_mono ih

theorem ascend_mono (h_mono : p.IsMonotone) (h_bottom : ∀ a, p.bottom ≤ a) (i : Fin n) :
    Monotone fun k => p.ascend k i :=
  monotone_nat_of_le_succ fun k => ascend_le_succ h_mono h_bottom k i

theorem ascend_le_of_solves (h_mono : p.IsMonotone) (h_bottom : ∀ a, p.bottom ≤ a) {t : Tables n α}
    (h_solves : p.Solves t) (k : Nat) : ∀ i, p.ascend k i ≤ t.ins.get i := by
  induction k with
  | zero => exact fun i => h_bottom _
  | succ k ih =>
    intro i
    rw [(h_solves i).ins, (h_solves i).outs]
    exact advance_le_advance h_mono ih i

/-- Rounds that have come to rest have reached the least solution. -/
theorem tablesOf_isLeastSolution (h_mono : p.IsMonotone) (h_bottom : ∀ a, p.bottom ≤ a) {k : Nat}
    (h_rest : p.ascend (k + 1) = p.ascend k) : p.IsLeastSolution (p.tablesOf (p.ascend k)) where
  solves := tablesOf_solves h_rest
  least u h_solves i := by
    have h_le := ascend_le_of_solves h_mono h_bottom h_solves k
    rw [tablesOf_ins, tablesOf_outs, (h_solves i).outs]
    exact ⟨h_le i, gather_le_gather h_mono h_le i⟩

end Order

section PartialOrder

variable [PartialOrder α] {p : Problem n α} {low high : Fin n → α} {k : Nat}

/-! ## The plan -/

/-- A round lowers `low` nowhere and raises `high` nowhere, and after `k` rounds the two are the
same. -/
structure Meets (p : Problem n α) (low high : Fin n → α) (k : Nat) : Prop where
  rises : ∀ i, low i ≤ p.advance low i
  falls : ∀ i, p.advance high i ≤ high i
  same : p.advance^[k] low = p.advance^[k] high

theorem iterate_le_iterate (h_mono : p.IsMonotone) {f g : Fin n → α} (h : ∀ i, f i ≤ g i) (j : Nat) :
    ∀ i, p.advance^[j] f i ≤ p.advance^[j] g i := by
  induction j with
  | zero => exact h
  | succ j ih =>
    rw [Function.iterate_succ_apply', Function.iterate_succ_apply']
    exact advance_le_advance h_mono ih

theorem iterate_le_succ (h_mono : p.IsMonotone) (h_rises : ∀ i, low i ≤ p.advance low i) (j : Nat) :
    ∀ i, p.advance^[j] low i ≤ p.advance^[j + 1] low i :=
  iterate_le_iterate h_mono h_rises j

theorem iterate_succ_le (h_mono : p.IsMonotone) (h_falls : ∀ i, p.advance high i ≤ high i) (j : Nat) :
    ∀ i, p.advance^[j + 1] high i ≤ p.advance^[j] high i :=
  iterate_le_iterate h_mono h_falls j

/-- Where `low` and `high` have met, the rounds are at rest. -/
theorem Meets.rest (h : p.Meets low high k) (h_mono : p.IsMonotone) :
    p.advance (p.advance^[k] low) = p.advance^[k] low := by
  rw [← Function.iterate_succ_apply' p.advance k low]
  funext i
  refine le_antisymm ?_ (iterate_le_succ h_mono h.rises k i)
  calc p.advance^[k + 1] low i
      = p.advance^[k + 1] high i := by
        rw [Function.iterate_succ_apply', Function.iterate_succ_apply', h.same]
    _ ≤ p.advance^[k] high i := iterate_succ_le h_mono h.falls k i
    _ = p.advance^[k] low i := by rw [h.same]

/-- Stage `j` of the plan for a run between `low` and `high`, which meet after `k` rounds: up to
stage `k` the value before a node lies between what `j` rounds make of the two, and afterwards
both values are those of the solution. -/
def squeeze (p : Problem n α) (low high : Fin n → α) (k j : Nat) : RowProp n α := fun i a b =>
  if j ≤ k then p.advance^[j] low i ≤ a ∧ a ≤ p.advance^[j] high i
  else a = p.advance^[k] low i ∧ b = p.gather (p.advance^[k] low) i

/-- In a stage before the last, a visit moves both bounds one round on. -/
theorem squeeze_improves_of_lt (h_mono : p.IsMonotone) (h : p.Meets low high k) {j : Nat} (hj : j < k) :
    p.Improves (p.squeeze low high k j) (p.squeeze low high k (j + 1)) := by
  have h_now : j ≤ k := hj.le
  have h_next : j + 1 ≤ k := hj
  constructor
  · intro i a b h_row
    simp only [squeeze, h_now, h_next, ↓reduceIte] at h_row ⊢
    exact ⟨(iterate_le_succ h_mono h.rises j i).trans h_row.1,
      h_row.2.trans (iterate_succ_le h_mono h.falls j i)⟩
  · intro t h_all i
    simp only [Tables.All, Tables.Row, squeeze, h_now, ↓reduceIte] at h_all
    simp only [Tables.Row, squeeze, h_next, ↓reduceIte, refresh_ins_self]
    -- values between two rounds are turned into values between the rounds that follow
    rw [Function.iterate_succ_apply', Function.iterate_succ_apply']
    exact ⟨advance_le_advance h_mono (fun s => (h_all s).1) i,
      advance_le_advance h_mono (fun s => (h_all s).2) i⟩

/-- When the rounds have met the values before the nodes are right, and a visit makes the value
after the visited node right too. -/
theorem squeeze_improves_last (h_mono : p.IsMonotone) (h : p.Meets low high k) :
    p.Improves (p.squeeze low high k k) (p.squeeze low high k (k + 1)) := by
  have h_end : ¬ k + 1 ≤ k := Nat.not_succ_le_self k
  constructor
  · intro i a b h_row
    simp only [squeeze, h_end, le_refl, ↓reduceIte] at h_row ⊢
    rw [← h.same]
    exact ⟨h_row.1.ge, h_row.1.le⟩
  · intro t h_all i
    simp only [Tables.All, Tables.Row, squeeze, le_refl, ↓reduceIte, ← h.same] at h_all
    have h_ins : t.ins.get = p.advance^[k] low :=
      funext fun s => le_antisymm (h_all s).2 (h_all s).1
    simp only [Tables.Row, squeeze, h_end, ↓reduceIte, refresh_ins_self, refresh_outs_self, h_ins]
    exact ⟨congrFun (h.rest h_mono) i, trivial⟩

theorem squeeze_plan (h_mono : p.IsMonotone) (h : p.Meets low high k) :
    p.Plan (p.squeeze low high k) (k + 1) (p.tablesOf (p.advance^[k] low)) where
  improves j hj := by
    rcases Nat.lt_succ_iff_lt_or_eq.mp hj with h_lt | rfl
    · exact squeeze_improves_of_lt h_mono h h_lt
    · exact squeeze_improves_last h_mono h
  last t h_all := by
    simp only [Tables.All, Tables.Row, squeeze, Nat.not_succ_le_self, ↓reduceIte] at h_all
    apply Tables.ext_rows
    · exact fun i => by rw [(h_all i).1, tablesOf_ins]
    · exact fun i => by rw [(h_all i).2, tablesOf_outs]
  solves := tablesOf_solves (h.rest h_mono)

/-! ## The solvers -/

/-- From every seed whose values before the nodes lie between two tables that meet after `k`
rounds, both solvers settle where these meet: passes after at most `k + 2`, and a worklist after
as many visits to every node. -/
theorem solve_of_meets [DecidableEq α] (h_range : p.InRange) (h_mono : p.IsMonotone)
    (h : p.Meets low high k) {seed : Tables n α}
    (h_seed : ∀ i, low i ≤ seed.ins.get i ∧ seed.ins.get i ≤ high i) (solver : Solver) {fuel : Nat}
    (h_fuel : (k + 2) * (n + 1) ≤ fuel) :
    (p.solve solver fuel seed).status = .settled ∧
      (p.solve solver fuel seed).tables = p.tablesOf (p.advance^[k] low) := by
  have h_plan := squeeze_plan h_mono h
  have h_start : seed.All (p.squeeze low high k 0) := by
    intro i
    simp only [Tables.Row, squeeze, Nat.zero_le, ↓reduceIte]
    exact h_seed i
  rw [Nat.mul_succ] at h_fuel
  cases solver with
  | roundRobin =>
    have h_passes : k + 1 < fuel := by
      have := Nat.zero_le ((k + 2) * n)
      omega
    obtain ⟨h_status, h_tables, _⟩ := roundRobin_of_plan h_range h_plan h_start h_passes
    exact ⟨h_status, h_tables⟩
  | worklist =>
    have h_visits : (k + 2) * n ≤ fuel := by omega
    obtain ⟨h_status, h_tables, _⟩ := worklist_of_plan h_range h_plan h_start h_visits
    exact ⟨h_status, h_tables⟩

/-- Where the rounds from `bottom` come to rest, they have met what they rest at. -/
theorem meets_ascend (h_bottom : ∀ a, p.bottom ≤ a) (h_rest : p.ascend (k + 1) = p.ascend k) :
    p.Meets (fun _ => p.bottom) (p.ascend k) k where
  rises _ := h_bottom _
  falls i := (congrFun h_rest i).le
  same := by rw [Function.iterate_fixed h_rest, ascend_eq_iterate]

/-- Where the rounds come to rest after `k`, both solvers settle on the least solution from every
seed at or below it. -/
theorem solve_of_rest [DecidableEq α] (h_range : p.InRange) (h_mono : p.IsMonotone)
    (h_bottom : ∀ a, p.bottom ≤ a) (h_rest : p.ascend (k + 1) = p.ascend k)
    {seed : Tables n α} (h_seed : ∀ i, seed.ins.get i ≤ p.ascend k i) (solver : Solver) {fuel : Nat}
    (h_fuel : (k + 2) * (n + 1) ≤ fuel) :
    (p.solve solver fuel seed).status = .settled ∧
      (p.solve solver fuel seed).tables = p.tablesOf (p.ascend k) := by
  rw [ascend_eq_iterate p k]
  exact solve_of_meets h_range h_mono (meets_ascend h_bottom h_rest)
    (fun i => ⟨h_bottom _, h_seed i⟩) solver h_fuel

/-- Values that rise at every node come to rest where none can rise for ever: all of them do once
the last of them does. -/
theorem exists_rest_of_monotone [WellFoundedGT α] {values : Nat → Fin n → α}
    (h_rise : ∀ i, Monotone fun k => values k i) : ∃ k, ∀ j, k ≤ j → values j = values k := by
  have h_node : ∀ i, ∃ k, ∀ j, k ≤ j → values k i = values j i := fun i =>
    WellFoundedGT.monotone_chain_condition ⟨fun k => values k i, h_rise i⟩
  choose rest h_node using h_node
  refine ⟨Finset.univ.sup rest, fun j hj => funext fun i => ?_⟩
  have h_le : rest i ≤ Finset.univ.sup rest := Finset.le_sup (Finset.mem_univ i)
  rw [← h_node i _ h_le, ← h_node i j (h_le.trans hj)]

theorem exists_rest [WellFoundedGT α] (h_mono : p.IsMonotone) (h_bottom : ∀ a, p.bottom ≤ a) :
    ∃ k, p.ascend (k + 1) = p.ascend k := by
  obtain ⟨k, h_rest⟩ := exists_rest_of_monotone (ascend_mono h_mono h_bottom)
  exact ⟨k, h_rest (k + 1) (Nat.le_succ k)⟩

/-- Over an order with no infinite ascent, with a least `bottom` and monotone meet and
transfers, the equations of every problem whose successors are nodes have a least solution,
and given enough fuel both solvers settle on it, from every seed whose values before the
nodes lie at or below it and whatever its values after them. -/
theorem solve_eq_leastSolution [DecidableEq α] [WellFoundedGT α] (h_range : p.InRange)
    (h_mono : p.IsMonotone) (h_bottom : ∀ a, p.bottom ≤ a) :
    ∃ (sol : Tables n α) (enough : Nat), p.IsLeastSolution sol ∧
      ∀ (solver : Solver) (seed : Tables n α), (∀ i, seed.ins.get i ≤ sol.ins.get i) →
        ∀ fuel, enough ≤ fuel →
          (p.solve solver fuel seed).status = .settled ∧ (p.solve solver fuel seed).tables = sol := by
  obtain ⟨k, h_rest⟩ := exists_rest h_mono h_bottom
  refine ⟨p.tablesOf (p.ascend k), (k + 2) * (n + 1),
    tablesOf_isLeastSolution h_mono h_bottom h_rest, fun solver seed h_seed fuel h_fuel => ?_⟩
  rw [tablesOf_ins] at h_seed
  exact solve_of_rest h_range h_mono h_bottom h_rest h_seed solver h_fuel

end PartialOrder

/-- Two nodes on a cycle, the second of which leads to itself twice. -/
def twoCycle : Problem 2 (Fin 3) where
  succs i := if i = 0 then [1] else [0, 1, 1]
  bottom := 0
  meet := max
  transfer i a := if i = 0 then max 1 a else a

theorem solve_eq_leastSolution_twoCycle :
    twoCycle.InRange ∧ twoCycle.IsMonotone ∧ (∀ a, twoCycle.bottom ≤ a) ∧
      ∃ (sol : Tables 2 (Fin 3)) (enough : Nat), twoCycle.IsLeastSolution sol ∧
        ∀ (solver : Solver) (seed : Tables 2 (Fin 3)), (∀ i, seed.ins.get i ≤ sol.ins.get i) →
          ∀ fuel, enough ≤ fuel →
            (twoCycle.solve solver fuel seed).status = .settled ∧
              (twoCycle.solve solver fuel seed).tables = sol := by
  have h_range : twoCycle.InRange := by unfold InRange; decide
  have h_mono : twoCycle.IsMonotone := by
    refine ⟨fun h₁ h₂ => max_le_max h₁ h₂, ?_⟩
    decide
  have h_bottom : ∀ a, twoCycle.bottom ≤ a := by decide
  exact ⟨h_range, h_mono, h_bottom, solve_eq_leastSolution h_range h_mono h_bottom⟩

end Problem

end LiveRange.Dataflow
