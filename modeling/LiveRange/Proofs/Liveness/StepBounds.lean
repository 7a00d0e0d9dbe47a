import Mathlib.Data.Finset.Option
import Mathlib.Tactic.Ring
import LiveRange.Proofs.Dataflow.Climbing
import LiveRange.Proofs.Liveness.Exact

/-! # How many steps the solvers take

Started from empty sets, passes over a problem whose values are sets come to rest two passes after as
many as there are nodes, however many elements there are: each element lives by itself and reaches a
node along a path that need not come twice to any node.  The worklist visits each node once, and then
again at most once for each edge and each change of the node the edge leads to, of which there is at
most one more than there are elements (`solve_genKill_steps`).

For liveness the elements are the temporaries that a body uses (`Liveness.steps_bounded`). -/

namespace LiveRange

open Dataflow (Solver)

namespace Dataflow

/-- A bound for the steps of a solver on so many nodes and edges, over sets of so many elements. -/
def Solver.stepBound (nodes elements edges : Nat) : Solver → Nat
  | .roundRobin => nodes + 2
  | .worklist => nodes + (elements + 1) * edges

theorem Solver.stepBound_mono {nodes elements elements' edges edges' : Nat}
    (h_elements : elements ≤ elements') (h_edges : edges ≤ edges') (solver : Solver) :
    solver.stepBound nodes elements edges ≤ solver.stepBound nodes elements' edges' := by
  cases solver with
  | roundRobin => exact le_rfl
  | worklist =>
    exact Nat.add_le_add_left (Nat.mul_le_mul (Nat.succ_le_succ h_elements) h_edges) nodes

namespace Problem

/-! ## Problems over sets -/

variable {n : Nat}

theorem roundRobin_of_rest {α : Type} [PartialOrder α] [DecidableEq α] {p : Problem n α} {k : Nat}
    (h_range : p.InRange) (h_mono : p.IsMonotone) (h_bottom : ∀ a, p.bottom ≤ a)
    (h_rest : p.ascend (k + 1) = p.ascend k) {fuel : Nat} (h_fuel : k + 2 ≤ fuel) :
    (p.roundRobin fuel (.const n p.bottom)).status = .settled ∧
      (p.roundRobin fuel (.const n p.bottom)).steps ≤ k + 2 := by
  have h_plan := squeeze_plan h_mono (meets_ascend h_bottom h_rest)
  have h_start : (Tables.const n p.bottom).All
      (p.squeeze (fun _ => p.bottom) (p.ascend k) k 0) := by
    intro i
    have h_value : (Tables.const n p.bottom).ins.get i = p.bottom := Vector.getElem_replicate i.isLt
    simp only [Tables.Row, squeeze, Nat.zero_le, ↓reduceIte, h_value]
    exact ⟨le_rfl, h_bottom _⟩
  obtain ⟨h_status, _, h_steps⟩ := roundRobin_of_plan h_range h_plan h_start h_fuel
  exact ⟨h_status, h_steps⟩

variable {succs : Fin n → List Nat} {β σ : Type} [Membership β σ] [EmptyCollection σ] [Union σ]
  [SDiff σ] [PartialOrder σ] [SetAlgebra β σ] {gen kill : Fin n → σ}

open scoped Classical in
/-- The elements that a set has room for. -/
noncomputable def missing (elements : Finset β) (s : σ) : Nat :=
  (elements.filter (· ∉ s)).card

/-- A set of elements that grows has less room. -/
theorem missing_lt {elements : Finset β} {s t : σ} (h_lt : s < t) (h_within : ∀ e ∈ t, e ∈ elements) :
    missing elements t < missing elements s := by
  classical
  have h_le : ∀ e, e ∈ s → e ∈ t := SetAlgebra.le_iff.mp h_lt.le
  obtain ⟨e, h_mem, h_new⟩ : ∃ e, e ∈ t ∧ e ∉ s := by
    refine by_contra fun h_none => h_lt.not_ge (SetAlgebra.le_iff.mpr fun e h_mem => ?_)
    exact by_contra fun h_new => h_none ⟨e, h_mem, h_new⟩
  refine Finset.card_lt_card (Finset.ssubset_iff_subset_ne.mpr ⟨fun x hx => ?_, fun h_eq => ?_⟩)
  · rw [Finset.mem_filter] at hx ⊢
    exact ⟨hx.1, fun h_old => hx.2 (h_le x h_old)⟩
  · have h_here : e ∈ elements.filter (· ∉ s) := Finset.mem_filter.mpr ⟨h_within e h_mem, h_new⟩
    rw [← h_eq, Finset.mem_filter] at h_here
    exact h_here.2 h_mem

variable [DecidableEq σ]

theorem worklist_genKill_steps (h_range : (genKill succs gen kill).InRange) {elements : Finset β}
    (h_elements : ∀ e, e ∈ elements ↔ ∃ i, e ∈ gen i) {fuel : Nat}
    (h_fuel : n + (elements.card + 1) * (genKill succs gen kill).edges.toFinset.card ≤ fuel) :
    ((genKill succs gen kill).worklist fuel (.const n ∅)).status = .settled ∧
      ((genKill succs gen kill).worklist fuel (.const n ∅)).steps ≤
        n + (elements.card + 1) * (genKill succs gen kill).edges.toFinset.card := by
  have h_room_empty : missing elements (∅ : σ) = elements.card := by
    simp [missing, SetAlgebra.notMem_empty]
  have h_falls : ∀ i, (genKill succs gen kill).advance ((genKill succs gen kill).ascend n) i ≤
      (genKill succs gen kill).ascend n i := fun i => ascend_genKill_le (n + 1) i
  -- what is gathered from the sets at rest was generated somewhere
  have h_room : ∀ i (a b : σ), a < b →
      b ≤ (genKill succs gen kill).gather ((genKill succs gen kill).ascend n) i →
        missing elements b < missing elements a := by
    intro i a b h_lt h_le
    refine missing_lt h_lt fun e h_mem => ?_
    obtain ⟨s, _, h_held⟩ := mem_gather_genKill.mp (SetAlgebra.le_iff.mp h_le e h_mem)
    exact (h_elements e).mpr (exists_gen_of_mem_ascend h_held)
  rw [← h_room_empty] at h_fuel ⊢
  exact worklist_of_room h_range isMonotone_genKill SetAlgebra.empty_le h_falls h_room h_fuel

/-- Started from empty sets, a solver settles on a problem over sets within its bound, where the
elements are those that some node generates and an edge counts once. -/
theorem solve_genKill_steps (h_range : (genKill succs gen kill).InRange) {elements : Finset β}
    (h_elements : ∀ e, e ∈ elements ↔ ∃ i, e ∈ gen i) (solver : Solver) {fuel : Nat}
    (h_fuel : solver.stepBound n elements.card (genKill succs gen kill).edges.toFinset.card ≤ fuel) :
    ((genKill succs gen kill).solve solver fuel (.const n ∅)).status = .settled ∧
      ((genKill succs gen kill).solve solver fuel (.const n ∅)).steps ≤
        solver.stepBound n elements.card (genKill succs gen kill).edges.toFinset.card := by
  cases solver with
  | roundRobin =>
    exact roundRobin_of_rest h_range isMonotone_genKill SetAlgebra.empty_le ascend_genKill_rest h_fuel
  | worklist => exact worklist_genKill_steps h_range h_elements h_fuel

end Problem

end Dataflow

/-! ## Liveness -/

namespace FlowGraph

variable {flow : FlowGraph} {tag : GraphTag} {body : List Instr}

theorem mem_uses_body {t : Temp} :
    t ∈ flow.body.flatMap Instr.uses ↔
      ∃ i : Fin flow.size, t ∈ (flow.table.get i).2.payload.uses := by
  simp only [body, List.flatMap_map, List.mem_flatMap]
  constructor
  · intro h_used
    obtain ⟨e, he, h_used⟩ := h_used
    obtain ⟨i, hi, rfl⟩ := List.getElem_of_mem he
    exact ⟨⟨i, hi⟩, h_used⟩
  · intro h_used
    obtain ⟨i, h_used⟩ := h_used
    exact ⟨_, List.getElem_mem i.isLt, h_used⟩

/-- The numbers that the liveness equations generate are those of the temporaries that are used. -/
theorem exists_generated (flow : FlowGraph) : ∃ numbers : Finset Nat,
    (∀ e, e ∈ numbers ↔ ∃ i, e ∈ flow.numbering.encode (flow.table.get i).2.payload.uses) ∧
      numbers.card ≤ (flow.body.flatMap Instr.uses).toFinset.card ∧
      numbers.card ≤ flow.numbering.size := by
  let used := (flow.body.flatMap Instr.uses).toFinset
  have h_numbers : ∀ e, e ∈ (used.image flow.numbering.number?).eraseNone ↔
      ∃ t ∈ used, flow.numbering.number? t = some e := by
    intro e
    rw [Finset.mem_eraseNone, Finset.mem_image]
  refine ⟨(used.image flow.numbering.number?).eraseNone, fun e => ?_, ?_, ?_⟩
  · rw [h_numbers]
    simp only [used, List.mem_toFinset, mem_uses_body, Numbering.mem_encode]
    constructor
    · intro h_number
      obtain ⟨t, ⟨i, h_used⟩, h_number⟩ := h_number
      exact ⟨i, t, h_used, h_number⟩
    · intro h_number
      obtain ⟨i, t, h_used, h_number⟩ := h_number
      exact ⟨t, ⟨i, h_used⟩, h_number⟩
  · exact (Finset.card_eraseNone_le _).trans Finset.card_image_le
  · refine (Finset.card_le_card fun e he => ?_).trans (Finset.card_range _).le
    obtain ⟨t, _, h_number⟩ := (h_numbers e).mp he
    exact Finset.mem_range.mpr (Numbering.lt_size_of_number? h_number)

theorem LaidOut.card_edges_le (h : flow.LaidOut tag body) :
    flow.equations.edges.toFinset.card ≤ flow.graph.edgeCount := by
  obtain ⟨edges, h_edges⟩ := h.edges
  rw [h_edges.edgeCount_eq, ← List.toFinset_card_of_nodup h_edges.nodup]
  refine Finset.card_le_card_of_injOn (fun e => (⟨tag, e.1⟩, ⟨tag, e.2⟩)) ?_ ?_
  · rintro ⟨i, s⟩ he
    have h_succ : s ∈ flow.equations.succs i := by simpa [Dataflow.Problem.mem_edges] using he
    have h_edge : flow.Edge ⟨tag, i⟩ ⟨tag, s⟩ :=
      h.edge_iff_succs.mpr ⟨⟨s, h.inRange i s h_succ⟩, rfl, h_succ⟩
    rw [edge_iff (h.node?_eq i), h_edges.mem_succs (h.node?_eq i)] at h_edge
    simpa using h_edge
  · rintro ⟨i, s⟩ _ ⟨i', s'⟩ _ h_eq
    simp only [Prod.mk.injEq, NodeId.mk.injEq, true_and, Fin.val_inj] at h_eq
    rw [h_eq.1, h_eq.2]

end FlowGraph

namespace Liveness

open FlowGraph (LaidOut)

variable {flow : FlowGraph} {tag : GraphTag} {body : List Instr}

theorem stepBound_le_budget (nodes temps : Nat) (solver : Solver) :
    solver.stepBound nodes temps (nodes * nodes) ≤ budget nodes temps := by
  cases solver with
  | roundRobin => exact (Nat.le_mul_of_pos_right _ (Nat.succ_pos nodes)).trans (le_budget nodes temps)
  | worklist =>
    have h_nodes : nodes ≤ (nodes + 1) * (nodes + 1) :=
      (Nat.le_succ nodes).trans (Nat.le_mul_of_pos_right _ (Nat.succ_pos nodes))
    have h_square : nodes * nodes ≤ (nodes + 1) * (nodes + 1) :=
      Nat.mul_le_mul (Nat.le_succ nodes) (Nat.le_succ nodes)
    calc nodes + (temps + 1) * (nodes * nodes)
        ≤ (nodes + 1) * (nodes + 1) + (temps + 1) * ((nodes + 1) * (nodes + 1)) :=
          Nat.add_le_add h_nodes (Nat.mul_le_mul_left _ h_square)
      _ = (nodes + 1) * (nodes + 1) * (temps + 2) := by ring
      _ ≤ 2 * ((nodes + 1) * (nodes + 1) * (temps + 2)) := Nat.le_mul_of_pos_left _ Nat.two_pos
      _ = budget nodes temps := by
        unfold budget
        ring

theorem steps_run (h : flow.LaidOut tag body) (solver : Solver) :
    (run flow solver (.const _ ∅)).steps ≤ solver.stepBound flow.size
      (flow.body.flatMap Instr.uses).toFinset.card flow.graph.edgeCount := by
  have h_range := h.inRange
  have h_square := Dataflow.Problem.card_edges_le h_range
  have h_edges := h.card_edges_le
  obtain ⟨numbers, h_numbers, h_used, h_size⟩ := flow.exists_generated
  refine le_trans ?_ (Solver.stepBound_mono h_used h_edges solver)
  have h_fuel := (Solver.stepBound_mono h_size h_square solver).trans
    (stepBound_le_budget flow.size flow.numbering.size solver)
  unfold run
  rw [show flow.problem flow.numbering = flow.equations from rfl]
  rw [flow.equations_eq] at h_range h_fuel ⊢
  exact (Dataflow.Problem.solve_genKill_steps h_range h_numbers solver h_fuel).2

/-- Started from empty sets, passes over a problem of sets come to rest within two more than there
are nodes, and the worklist within one visit to each node and, for each edge, one more than there are
elements that some node generates.  So it is for the liveness of every body that has a flow graph,
where the elements are the temporaries that the body uses. -/
theorem steps_bounded :
    (∀ {n : Nat} {β σ : Type} [Membership β σ] [EmptyCollection σ] [Union σ] [SDiff σ]
      [PartialOrder σ] [SetAlgebra β σ] [DecidableEq σ] (succs : Fin n → List Nat)
      (gen kill : Fin n → σ), (Dataflow.Problem.genKill succs gen kill).InRange →
      ∀ elements : Finset β, (∀ e, e ∈ elements ↔ ∃ i, e ∈ gen i) →
        ∀ (solver : Solver) (fuel : Nat),
          solver.stepBound n elements.card
            (Dataflow.Problem.genKill succs gen kill).edges.toFinset.card ≤ fuel →
          ((Dataflow.Problem.genKill succs gen kill).solve solver fuel (.const n ∅)).status =
            .settled ∧
          ((Dataflow.Problem.genKill succs gen kill).solve solver fuel (.const n ∅)).steps ≤
            solver.stepBound n elements.card
              (Dataflow.Problem.genKill succs gen kill).edges.toFinset.card) ∧
    ∀ {tag : GraphTag} {body : List Instr} {flow : FlowGraph},
      FlowGraph.build tag body = .ok flow → ∀ solver : Solver,
        (run flow solver (.const _ ∅)).status = .settled ∧
          (compute flow solver).steps ≤ solver.stepBound body.length
            (body.flatMap Instr.uses).toFinset.card flow.graph.edgeCount := by
  refine ⟨fun succs gen kill h_range elements h_elements solver fuel h_fuel => ?_,
    fun {tag body flow} h_build solver => ?_⟩
  · exact Dataflow.Problem.solve_genKill_steps h_range h_elements solver h_fuel
  · have h := FlowGraph.build_laidOut h_build
    have h_steps := steps_run h solver
    rw [h.body_eq] at h_steps
    rw [← h.size_eq]
    exact ⟨(run_eq h solver).1, h_steps⟩

/-- Three nodes on a ring, each with a repeated edge to itself, that generate their own number each and
kill that of the node after them. -/
def ring : Dataflow.Problem 3 (Finset Nat) :=
  .genKill (fun i => [(i.val + 1) % 3, i, i]) (fun i => {i.val}) fun i => {(i.val + 1) % 3}

theorem steps_bounded_ring :
    (ring.InRange ∧ (∀ e, e ∈ Finset.range 3 ↔ ∃ i : Fin 3, e ∈ ({i.val} : Finset Nat)) ∧
      ∀ (solver : Solver) (fuel : Nat), solver.stepBound 3 3 6 ≤ fuel →
        (ring.solve solver fuel (.const 3 ∅)).status = .settled ∧
          (ring.solve solver fuel (.const 3 ∅)).steps ≤ solver.stepBound 3 3 6) ∧
      FlowGraph.build ⟨0⟩ copyLoop = .ok copyLoopFlow ∧ ∀ solver : Solver,
        (run copyLoopFlow solver (.const _ ∅)).status = .settled ∧
          (compute copyLoopFlow solver).steps ≤ solver.stepBound 4 3 4 := by
  have h_range : ring.InRange := by unfold Dataflow.Problem.InRange; decide
  have h_elements : ∀ e, e ∈ Finset.range 3 ↔ ∃ i : Fin 3, e ∈ ({i.val} : Finset Nat) := by
    intro e
    simp only [Finset.mem_range, Finset.mem_singleton]
    exact ⟨fun h_lt => ⟨⟨e, h_lt⟩, rfl⟩, fun ⟨i, h_eq⟩ => h_eq ▸ i.isLt⟩
  exact ⟨⟨h_range, h_elements, steps_bounded.1 _ _ _ h_range _ h_elements⟩, build_copyLoop,
    steps_bounded.2 build_copyLoop⟩

end Liveness

end LiveRange
