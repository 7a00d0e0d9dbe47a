import LiveRange.Proofs.Liveness.Exact

/-! # Taking up a table again

A table on a flow graph `IsTableOf` it when it holds what computing it afresh gives.  Liveness may
be solved from the sets of any table instead of from empty ones (`Liveness.seeds`), and two cases
are harmless:

* a table of the flow graph itself gives the solution back as the seed, and the solver only
  confirms it (`IsTableOf.run_seeds`);
* a table that knows none of the nodes gives empty sets, from which the solver starts as if there
  were no table (`seeds_of_unknown`).

A flow graph and its copies have the same nodes, so they have the same tables. -/

namespace LiveRange

variable {flow flow' : FlowGraph} {tag : GraphTag} {body : List Instr} {live live' : Liveness}
  {a : NodeId}

/-! ## The solution -/

namespace FlowGraph

/-- The least solution of the liveness equations. -/
def solution (flow : FlowGraph) : Dataflow.Tables flow.size BitSet :=
  flow.equations.tablesOf (flow.equations.ascend flow.size)

theorem solution_solves (flow : FlowGraph) : flow.equations.Solves flow.solution := by
  refine Dataflow.Problem.tablesOf_solves ?_
  show flow.equations.ascend (flow.size + 1) = _
  rw [equations_eq]
  exact Dataflow.Problem.ascend_genKill_rest

/-- No number is generated at a node but those of temporaries. -/
theorem lt_size_of_mem_ascend {k e : Nat} {i : Fin flow.size} (h : e ∈ flow.equations.ascend k i) :
    e < flow.numbering.size := by
  rw [equations_eq] at h
  obtain ⟨j, h_gen⟩ := Dataflow.Problem.exists_gen_of_mem_ascend h
  obtain ⟨t, _, h_number⟩ := Numbering.mem_encode.mp h_gen
  exact Numbering.lt_size_of_number? h_number

theorem lt_size_of_mem_gather {k e : Nat} {i : Fin flow.size}
    (h : e ∈ flow.equations.gather (flow.equations.ascend k) i) : e < flow.numbering.size := by
  have h_held : ∃ s, e ∈ flow.equations.ascend k s := by
    rw [equations_eq] at h ⊢
    obtain ⟨s, _, h_mem⟩ := Dataflow.Problem.mem_gather_genKill.mp h
    exact ⟨s, h_mem⟩
  exact h_held.elim fun _ => lt_size_of_mem_ascend

theorem LaidOut.congr (h : flow.LaidOut tag body) (h_slots : flow'.graph.slots = flow.graph.slots) :
    flow'.LaidOut tag body := by
  obtain ⟨⟨tag', slots⟩⟩ := flow'
  cases h_slots
  obtain ⟨edges, h_edges⟩ := h.edges
  exact ⟨h.labels, edges, h_edges.nodup, h_edges.live, h_edges.succs, h_edges.preds⟩

theorem nodes_congr (h_slots : flow'.graph.slots = flow.graph.slots) :
    flow'.nodes = flow.nodes := by
  obtain ⟨⟨tag', slots⟩⟩ := flow'
  cases h_slots
  rfl

end FlowGraph

/-! ## Tables of a flow graph -/

namespace Liveness

/-- A table holds what computing it afresh gives.  How it was solved is left open. -/
structure IsTableOf (live : Liveness) (flow : FlowGraph) : Prop where
  numbering : live.numbering = flow.numbering
  rows : live.rows = (compute flow default).rows

theorem isTableOf_solve (h : flow.LaidOut tag body) {solver : Dataflow.Solver}
    {seed : Dataflow.Tables flow.size BitSet}
    (h_tables : (run flow solver seed).tables = flow.solution) :
    (solve flow solver seed).IsTableOf flow := by
  refine ⟨rfl, ?_⟩
  simp only [compute, solve, h_tables, (run_eq h default).2]
  rfl

theorem isTableOf_compute (h : flow.LaidOut tag body) (solver : Dataflow.Solver) :
    (compute flow solver).IsTableOf flow :=
  isTableOf_solve h (run_eq h solver).2

theorem IsTableOf.congr (h : live.IsTableOf flow) (h_slots : flow'.graph.slots = flow.graph.slots) :
    live.IsTableOf flow' := by
  obtain ⟨⟨tag', slots⟩⟩ := flow'
  cases h_slots
  exact ⟨h.numbering, h.rows⟩

namespace IsTableOf

/-- Two tables of one flow graph differ in how they were solved, and in nothing else. -/
theorem eq_solved (h : live.IsTableOf flow) (h' : live'.IsTableOf flow) :
    live' = { live with solver := live'.solver, steps := live'.steps } := by
  obtain ⟨numbering, rows, solver, steps⟩ := live
  obtain ⟨numbering', rows', solver', steps'⟩ := live'
  cases h.numbering.trans h'.numbering.symm
  cases h.rows.trans h'.rows.symm
  rfl

theorem row?_eq (h : live.IsTableOf flow) (h_flow : flow.LaidOut tag body) (i : Fin flow.size) :
    live.row? ⟨tag, i⟩ = some ⟨⟨tag, i⟩, flow.solution.ins.get i, flow.solution.outs.get i⟩ := by
  have h_row := row?_solve h_flow default (.const _ ∅) i
  rw [(run_eq h_flow default).2] at h_row
  rw [row?, h.rows]
  exact h_row

/-- A table knows the nodes of its flow graph and no other handles. -/
theorem row?_eq_none (h : live.IsTableOf flow) (h_flow : flow.LaidOut tag body)
    (ha : a ∉ flow.nodes) : live.row? a = none := by
  refine List.find?_eq_none.mpr fun row h_row h_node => ha ?_
  rw [h.rows] at h_row
  obtain ⟨i, _, rfl⟩ := List.mem_map.mp h_row
  rw [← of_decide_eq_true h_node]
  exact Graph.mem_nodes_of_node? ((h_flow.table_get i).1 ▸ h_flow.node?_eq i)

end IsTableOf

/-! ## Seeds -/

/-- The sets from which liveness is solved when a table is taken up on a flow graph. -/
def seeds (flow : FlowGraph) (live : Liveness) : Dataflow.Tables flow.size BitSet :=
  ⟨flow.table.map fun (id, _) => live.renumber flow.numbering LiveRow.liveIn id,
    flow.table.map fun (id, _) => live.renumber flow.numbering LiveRow.liveOut id⟩

theorem solveFrom_eq (flow : FlowGraph) (live : Liveness) (solver : Dataflow.Solver) :
    solveFrom flow live solver = solve flow solver (seeds flow live) := rfl

theorem seeds_ins_get (flow : FlowGraph) (live : Liveness) (i : Fin flow.size) :
    (seeds flow live).ins.get i =
      live.renumber flow.numbering LiveRow.liveIn (flow.table.get i).1 :=
  Vector.getElem_map _ i.isLt

theorem seeds_outs_get (flow : FlowGraph) (live : Liveness) (i : Fin flow.size) :
    (seeds flow live).outs.get i =
      live.renumber flow.numbering LiveRow.liveOut (flow.table.get i).1 :=
  Vector.getElem_map _ i.isLt

theorem seeds_of_unknown (h : ∀ a ∈ flow.nodes, live.row? a = none) :
    seeds flow live = .const _ ∅ := by
  have h_row : ∀ i, live.row? (flow.table.get i).1 = none := fun i =>
    h _ (List.mem_map_of_mem (List.getElem_mem i.isLt))
  have h_const : ∀ i, (Vector.replicate flow.size (∅ : BitSet)).get i = ∅ := fun i =>
    Vector.getElem_replicate i.isLt
  apply Dataflow.Tables.ext_rows
  · intro i
    rw [seeds_ins_get, renumber, h_row]
    exact (h_const i).symm
  · intro i
    rw [seeds_outs_get, renumber, h_row]
    exact (h_const i).symm

namespace IsTableOf

theorem renumber_eq (h : live.IsTableOf flow) (h_flow : flow.LaidOut tag body) (i : Fin flow.size)
    {set : LiveRow → BitSet} {s : BitSet}
    (h_set : set ⟨⟨tag, i⟩, flow.solution.ins.get i, flow.solution.outs.get i⟩ = s)
    (h_lt : ∀ e ∈ s, e < flow.numbering.size) :
    live.renumber flow.numbering set (flow.table.get i).1 = s := by
  rw [renumber, (h_flow.table_get i).1, h.row?_eq h_flow i]
  simp only [h_set, h.numbering]
  exact Numbering.encode_decode (Numbering.nodup_ofMentions _) h_lt

/-- Taking up a table of the flow graph itself gives the solution back. -/
theorem seeds_eq (h : live.IsTableOf flow) (h_flow : flow.LaidOut tag body) :
    seeds flow live = flow.solution := by
  apply Dataflow.Tables.ext_rows
  · intro i
    rw [seeds_ins_get]
    refine h.renumber_eq h_flow i rfl fun e he => ?_
    rw [FlowGraph.solution, Dataflow.Problem.tablesOf_ins] at he
    exact FlowGraph.lt_size_of_mem_ascend he
  · intro i
    rw [seeds_outs_get]
    refine h.renumber_eq h_flow i rfl fun e he => ?_
    rw [FlowGraph.solution, Dataflow.Problem.tablesOf_outs] at he
    exact FlowGraph.lt_size_of_mem_gather he

theorem run_seeds (h : live.IsTableOf flow) (h_flow : flow.LaidOut tag body)
    (solver : Dataflow.Solver) :
    run flow solver (seeds flow live) = ⟨flow.solution, Dataflow.backward flow.size,
      solver.stepsToConfirm flow.size, .settled⟩ := by
  have h_fuel : flow.size < budget flow.size flow.numbering.size := by
    have h_budget := le_budget flow.size flow.numbering.size
    rw [Nat.mul_succ] at h_budget
    omega
  rw [h.seeds_eq h_flow]
  exact Dataflow.Problem.solve_of_solves h_flow.inRange flow.solution_solves solver
    ((solver.stepsToConfirm_le _).trans h_fuel)

end IsTableOf

end Liveness

end LiveRange
