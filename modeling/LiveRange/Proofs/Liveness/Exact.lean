import LiveRange.Proofs.Liveness.Paths

/-! # Liveness is exact

For the flow graph of a body, both solvers settle within `Liveness.budget` on tables whose
rows hold exactly the temporaries that are live in the sense of paths
(`LaidOut.holds_gather_rest`).  Through `LaidOut.row_compute` this reaches every question
that may be asked of the tables.

The equations are followed in rounds, all nodes at once.  A path of any length is found
because the rounds come to rest, and no set holds more than a path explains because every
round is counted. -/

namespace LiveRange

variable {flow : FlowGraph} {tag : GraphTag} {body : List Instr} {t : Temp}

/-! ## The solution -/

namespace FlowGraph.LaidOut

/-- The sets at rest hold after a node what is read at the end of some path. -/
theorem holds_gather_rest (h : flow.LaidOut tag body) (i : Fin flow.size) :
    flow.numbering.holds (flow.equations.gather (flow.equations.ascend flow.size) i) t = true ↔
      flow.LiveAfter t ⟨tag, i⟩ := by
  constructor
  · intro h_holds
    obtain ⟨between, last, h_path, _⟩ := (h.holds_gather_ascend flow.size i).mp h_holds
    exact ⟨between, last, h_path⟩
  · intro h_live
    obtain ⟨between, last, h_path⟩ := h_live
    -- the round that counts the whole path holds no more than the sets at rest
    have h_round := (h.holds_gather_ascend (between.length + 1) i).mpr
      ⟨between, last, h_path, Nat.lt_succ_self _⟩
    obtain ⟨s, h_succ, h_holds⟩ := holds_gather.mp h_round
    have h_le : flow.equations.ascend (between.length + 1) s ≤ flow.equations.ascend flow.size s := by
      rw [equations_eq]
      exact Dataflow.Problem.ascend_genKill_le _ s
    exact holds_gather.mpr ⟨s, h_succ, Numbering.holds_mono h_le h_holds⟩

/-- The sets at rest hold before a node what it reads, and what is live after it and not
written by it. -/
theorem holds_rest (h : flow.LaidOut tag body) (i : Fin flow.size) :
    flow.numbering.holds (flow.equations.ascend flow.size i) t = true ↔ flow.LiveBefore t ⟨tag, i⟩ := by
  have h_rest : flow.equations.ascend (flow.size + 1) = flow.equations.ascend flow.size := by
    rw [equations_eq]
    exact Dataflow.Problem.ascend_genKill_rest
  rw [← h_rest, Dataflow.Problem.ascend, h.holds_advance, h.holds_gather_rest, LiveBefore]

end FlowGraph.LaidOut

/-! ## The solvers -/

namespace Liveness

theorem le_budget (nodes temps : Nat) : (nodes + 2) * (nodes + 1) ≤ budget nodes temps := by
  calc (nodes + 2) * (nodes + 1)
      ≤ 2 * (nodes + 1) * (nodes + 1) := Nat.mul_le_mul_right _ (by omega)
    _ ≤ 2 * (nodes + 1) * (nodes + 1) * (temps + 2) := Nat.le_mul_of_pos_right _ (by omega)

theorem run_eq (h : flow.LaidOut tag body) (solver : Dataflow.Solver) :
    (run flow solver (.const _ ∅)).status = .settled ∧
      (run flow solver (.const _ ∅)).tables =
        flow.equations.tablesOf (flow.equations.ascend flow.size) := by
  have h_range := h.inRange
  unfold run
  rw [show flow.problem flow.numbering = flow.equations from rfl]
  rw [flow.equations_eq] at h_range ⊢
  exact Dataflow.Problem.solve_genKill h_range solver (le_budget _ _)

theorem row?_solve (h : flow.LaidOut tag body) (solver : Dataflow.Solver)
    (seed : Dataflow.Tables flow.size BitSet) (i : Fin flow.size) :
    (solve flow solver seed).row? ⟨tag, i⟩ =
      some ⟨⟨tag, i⟩, (run flow solver seed).tables.ins.get i,
        (run flow solver seed).tables.outs.get i⟩ := by
  -- no two rows carry one handle, so the search ends at the row of the position
  have h_found : (List.finRange flow.size).find? (fun j => (flow.table.get j).1 = (⟨tag, i⟩ : NodeId)) =
      some i := by
    have h_some : ((List.finRange flow.size).find? fun j =>
        (flow.table.get j).1 = (⟨tag, i⟩ : NodeId)).isSome = true :=
      List.find?_isSome.mpr ⟨i, List.mem_finRange i, decide_eq_true (h.table_get i).1⟩
    obtain ⟨j, hj⟩ := Option.isSome_iff_exists.mp h_some
    have h_id := List.find?_some hj
    rw [(h.table_get j).1, decide_eq_true_eq, NodeId.mk.injEq] at h_id
    rw [hj, Fin.ext h_id.2]
  simp only [row?, solve, List.find?_map, Function.comp_def, h_found, Option.map_some,
    (h.table_get i).1]

theorem row_solve (h : flow.LaidOut tag body) (solver : Dataflow.Solver)
    (seed : Dataflow.Tables flow.size BitSet) (i : Fin flow.size) :
    (solve flow solver seed).row ⟨tag, i⟩ =
      .ok ⟨⟨tag, i⟩, (run flow solver seed).tables.ins.get i,
        (run flow solver seed).tables.outs.get i⟩ := by
  rw [row, row?_solve h]

theorem row_compute (h : flow.LaidOut tag body) (solver : Dataflow.Solver) (i : Fin flow.size) :
    ∃ row, (compute flow solver).row ⟨tag, i⟩ = .ok row ∧ ∀ t,
      (flow.numbering.holds row.liveOut t = true ↔ flow.LiveAfter t ⟨tag, i⟩) ∧
      (flow.numbering.holds row.liveIn t = true ↔ flow.LiveBefore t ⟨tag, i⟩) := by
  refine ⟨_, row_solve h solver _ i, fun t => ?_⟩
  rw [(run_eq h solver).2, Dataflow.Problem.tablesOf_ins, Dataflow.Problem.tablesOf_outs]
  exact ⟨h.holds_gather_rest i, h.holds_rest i⟩

/-! ## What the tables answer -/

theorem numbering_nodup (flow : FlowGraph) (solver : Dataflow.Solver) :
    (compute flow solver).numbering.temps.Nodup :=
  Numbering.nodup_ofMentions _

theorem mem_tempSet (flow : FlowGraph) (solver : Dataflow.Solver) {s : BitSet} :
    t ∈ (compute flow solver).tempSet s ↔ flow.numbering.holds s t = true := by
  rw [tempSet, Std.ExtTreeSet.mem_ofList, List.contains_iff_mem,
    Numbering.mem_decode (numbering_nodup flow solver)]
  rfl

theorem liveOutTemps_compute (h : flow.LaidOut tag body) (solver : Dataflow.Solver) {a : NodeId}
    (ha : a ∈ flow.nodes) :
    ∃ ts, (compute flow solver).liveOutTemps a = .ok ts ∧ ∀ t, t ∈ ts ↔ flow.LiveAfter t a := by
  obtain ⟨i, rfl⟩ := h.exists_position ha
  obtain ⟨row, h_row, h_live⟩ := row_compute h solver i
  refine ⟨_, map_eq_ok.mpr ⟨row, h_row, rfl⟩, fun t => ?_⟩
  rw [Numbering.mem_decode (numbering_nodup flow solver)]
  exact (h_live t).1

theorem liveOut_compute (h : flow.LaidOut tag body) (solver : Dataflow.Solver) {a : NodeId}
    (ha : a ∈ flow.nodes) :
    ∃ ts, (compute flow solver).liveOut a = .ok ts ∧ ∀ t, t ∈ ts ↔ flow.LiveAfter t a := by
  obtain ⟨i, rfl⟩ := h.exists_position ha
  obtain ⟨row, h_row, h_live⟩ := row_compute h solver i
  refine ⟨_, map_eq_ok.mpr ⟨row, h_row, rfl⟩, fun t => ?_⟩
  rw [mem_tempSet]
  exact (h_live t).1

theorem liveIn_compute (h : flow.LaidOut tag body) (solver : Dataflow.Solver) {a : NodeId}
    (ha : a ∈ flow.nodes) :
    ∃ ts, (compute flow solver).liveIn a = .ok ts ∧ ∀ t, t ∈ ts ↔ flow.LiveBefore t a := by
  obtain ⟨i, rfl⟩ := h.exists_position ha
  obtain ⟨row, h_row, h_live⟩ := row_compute h solver i
  refine ⟨_, map_eq_ok.mpr ⟨row, h_row, rfl⟩, fun t => ?_⟩
  rw [mem_tempSet]
  exact (h_live t).2

theorem mem_liveOutTemps (h : flow.LaidOut tag body) {solver : Dataflow.Solver} {a : NodeId}
    (ha : a ∈ flow.nodes) {ts : List Temp} (h_ts : (compute flow solver).liveOutTemps a = .ok ts) :
    t ∈ ts ↔ flow.LiveAfter t a := by
  obtain ⟨ts', h_ts', h_mem⟩ := liveOutTemps_compute h solver ha
  rw [h_ts, Except.ok.injEq] at h_ts'
  rw [h_ts', h_mem]

theorem mem_liveIn (h : flow.LaidOut tag body) {solver : Dataflow.Solver} {a : NodeId}
    (ha : a ∈ flow.nodes) {ts : TempSet} (h_ts : (compute flow solver).liveIn a = .ok ts) :
    t ∈ ts ↔ flow.LiveBefore t a := by
  obtain ⟨ts', h_ts', h_mem⟩ := liveIn_compute h solver ha
  rw [h_ts, Except.ok.injEq] at h_ts'
  rw [h_ts', h_mem]

/-- For every body that has a flow graph both solvers settle, and at every node the computed
sets hold exactly the temporaries that are live there: live after a node is what is read at
the end of a path on which nothing in between writes it, and live before a node is what it
reads, or what is live after it and not written by it. -/
theorem compute_exact (h_build : FlowGraph.build tag body = .ok flow) (solver : Dataflow.Solver) :
    (run flow solver (.const _ ∅)).status = .settled ∧
      ∀ a ∈ flow.nodes, ∃ ins outs : TempSet,
        (compute flow solver).liveIn a = .ok ins ∧ (compute flow solver).liveOut a = .ok outs ∧
          ∀ t, (t ∈ outs ↔ flow.LiveAfter t a) ∧
            (t ∈ ins ↔ flow.Reads t a ∨ t ∈ outs ∧ ¬ flow.Writes t a) ∧
            (compute flow solver).isLiveOut a t = .ok (decide (t ∈ outs)) := by
  have h := FlowGraph.build_laidOut h_build
  refine ⟨(run_eq h solver).1, fun a ha => ?_⟩
  obtain ⟨i, rfl⟩ := h.exists_position ha
  obtain ⟨row, h_row, h_live⟩ := row_compute h solver i
  refine ⟨_, _, map_eq_ok.mpr ⟨row, h_row, rfl⟩, map_eq_ok.mpr ⟨row, h_row, rfl⟩, fun t => ?_⟩
  simp only [mem_tempSet]
  refine ⟨(h_live t).1, ?_, map_eq_ok.mpr ⟨row, h_row, ?_⟩⟩
  · rw [(h_live t).2, (h_live t).1, FlowGraph.LiveBefore]
  · exact Bool.decide_eq_true.symm

/-- A loop that copies `x` into `y` and adds the copy to `x`, until `x` reaches `n`. -/
def copyLoop : List Instr :=
  [.place ⟨"top"⟩, .move "mov" ⟨"y"⟩ ⟨"x"⟩, .op "add" [⟨"x"⟩] [⟨"x"⟩, ⟨"y"⟩],
    .branch "jl" [⟨"x"⟩, ⟨"n"⟩] [⟨"top"⟩]]

def copyLoopFlow : FlowGraph := (FlowGraph.build ⟨0⟩ copyLoop).toOption.getD ⟨.empty ⟨0⟩⟩

theorem build_copyLoop : FlowGraph.build ⟨0⟩ copyLoop = .ok copyLoopFlow := rfl

theorem compute_exact_copyLoop :
    FlowGraph.build ⟨0⟩ copyLoop = .ok copyLoopFlow ∧
      (run copyLoopFlow .worklist (.const _ ∅)).status = .settled ∧
      ∀ a ∈ copyLoopFlow.nodes, ∃ ins outs : TempSet,
        (compute copyLoopFlow .worklist).liveIn a = .ok ins ∧
          (compute copyLoopFlow .worklist).liveOut a = .ok outs ∧
          ∀ t, (t ∈ outs ↔ copyLoopFlow.LiveAfter t a) ∧
            (t ∈ ins ↔ copyLoopFlow.Reads t a ∨ t ∈ outs ∧ ¬ copyLoopFlow.Writes t a) ∧
            (compute copyLoopFlow .worklist).isLiveOut a t = .ok (decide (t ∈ outs)) :=
  ⟨build_copyLoop, compute_exact build_copyLoop .worklist⟩

end Liveness

end LiveRange
