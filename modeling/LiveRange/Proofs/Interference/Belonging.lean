import LiveRange.Proofs.Interference.Renaming
import LiveRange.Proofs.Liveness.Sessions

/-! # Which tables belong to which flow graphs

A handle that is asked about is a node of the flow graph, and then every question about it has its
answer, or it is none, and then every question is refused with that handle.  For a table the same
holds of the nodes of the flow graph on which it was made.

In a session a table is therefore of use on its flow graph and on those with the same origin.
There an interference graph may be built from it, and it is the one that a fresh table gives; on
any other flow graph that has a node, the first node is refused (`Session.run_belongs`). -/

namespace LiveRange

variable {flow : FlowGraph} {live live' : Liveness} {tag : GraphTag} {body : List Instr}
  {a : NodeId}

/-! ## Questions about a handle -/

/-- Every question about a handle has the answer that the node gives, and the graph below does not
refuse the handle. -/
structure FlowGraph.Tells (flow : FlowGraph) (a : NodeId) (node : Node Instr) : Prop where
  graph : flow.graph.node a = .ok node
  defs : flow.defs a = .ok node.payload.defs
  uses : flow.uses a = .ok node.payload.uses
  isMove : flow.isMove a = .ok node.payload.isMove
  successors : flow.successors a = .ok node.succs
  predecessors : flow.predecessors a = .ok node.preds

structure FlowGraph.Refuses (flow : FlowGraph) (a : NodeId) : Prop where
  defs : flow.defs a = .error (.nodeNotFound a)
  uses : flow.uses a = .error (.nodeNotFound a)
  isMove : flow.isMove a = .error (.nodeNotFound a)
  successors : flow.successors a = .error (.nodeNotFound a)
  predecessors : flow.predecessors a = .error (.nodeNotFound a)

theorem FlowGraph.tells_or_refuses (flow : FlowGraph) (a : NodeId) :
    (a ∈ flow.nodes ∧ ∃ node, flow.Tells a node) ∨ (a ∉ flow.nodes ∧ flow.Refuses a) := by
  cases h_node : flow.graph.node? a with
  | some node =>
    have h_ok : flow.node a = .ok node := node_eq_ok.mpr h_node
    have h_instr : flow.instr a = .ok node.payload := map_eq_ok.mpr ⟨node, h_ok, rfl⟩
    exact .inl ⟨Graph.mem_nodes_of_node? h_node, node,
      { graph := Graph.node_eq_ok.mpr h_node
        defs := map_eq_ok.mpr ⟨_, h_instr, rfl⟩
        uses := map_eq_ok.mpr ⟨_, h_instr, rfl⟩
        isMove := map_eq_ok.mpr ⟨_, h_instr, rfl⟩
        successors := map_eq_ok.mpr ⟨node, h_ok, rfl⟩
        predecessors := map_eq_ok.mpr ⟨node, h_ok, rfl⟩ }⟩
  | none =>
    have h_error : flow.node a = .error (.nodeNotFound a) := by simp only [FlowGraph.node, h_node]
    have h_instr : flow.instr a = .error (.nodeNotFound a) := map_eq_error _ h_error
    refine .inr ⟨fun h_mem => ?_,
      { defs := map_eq_error _ h_instr
        uses := map_eq_error _ h_instr
        isMove := map_eq_error _ h_instr
        successors := map_eq_error _ h_error
        predecessors := map_eq_error _ h_error }⟩
    obtain ⟨node, h_some⟩ := Graph.contains_iff.mp (Graph.mem_nodes.mp h_mem)
    rw [h_node] at h_some
    cases h_some

namespace Liveness

structure Tells (live : Liveness) (a : NodeId) : Prop where
  liveIn : ∃ ts, live.liveIn a = .ok ts
  liveOut : ∃ ts, live.liveOut a = .ok ts
  isLiveOut : ∀ t, ∃ b, live.isLiveOut a t = .ok b

structure Refuses (live : Liveness) (a : NodeId) : Prop where
  liveIn : live.liveIn a = .error (.nodeNotFound a)
  liveOut : live.liveOut a = .error (.nodeNotFound a)
  isLiveOut : ∀ t, live.isLiveOut a t = .error (.nodeNotFound a)

theorem row_eq_ok {row : LiveRow} (h : live.row? a = some row) : live.row a = .ok row := by
  simp only [Liveness.row, h]

theorem row_eq_error (h : live.row? a = none) : live.row a = .error (.nodeNotFound a) := by
  simp only [row, h]

theorem IsTableOf.tells_or_refuses (h : live.IsTableOf flow) (h_flow : flow.LaidOut tag body)
    (a : NodeId) : (a ∈ flow.nodes ∧ live.Tells a) ∨ (a ∉ flow.nodes ∧ live.Refuses a) := by
  by_cases ha : a ∈ flow.nodes
  · obtain ⟨i, rfl⟩ := h_flow.exists_position ha
    have h_row := row_eq_ok (h.row?_eq h_flow i)
    exact .inl ⟨ha, ⟨_, map_eq_ok.mpr ⟨_, h_row, rfl⟩⟩, ⟨_, map_eq_ok.mpr ⟨_, h_row, rfl⟩⟩,
      fun t => ⟨_, map_eq_ok.mpr ⟨_, h_row, rfl⟩⟩⟩
  · have h_row := row_eq_error (h.row?_eq_none h_flow ha)
    exact .inr ⟨ha, map_eq_error _ h_row, map_eq_error _ h_row, fun t => map_eq_error _ h_row⟩

end Liveness

/-! ## Building from a table -/

namespace InterferenceGraph

/-- Of a table only what is live after the nodes of the flow graph is used. -/
theorem build_congr (h : flow.nodes.mapM live.liveOutTemps = flow.nodes.mapM live'.liveOutTemps)
    (tag : GraphTag) (registers : List Temp) (model : SpillCost) :
    build tag flow live registers model = build tag flow live' registers model := by
  simp only [build, h]

theorem build_of_unknown {rest : List NodeId} (h_nodes : flow.nodes = a :: rest)
    (h_row : live.row? a = none) (tag : GraphTag) (registers : List Temp) (model : SpillCost) :
    build tag flow live registers model = .error (.nodeNotFound a) := by
  simp only [build, h_nodes, List.mapM_cons, Liveness.liveOutTemps, Liveness.row_eq_error h_row]
  rfl

end InterferenceGraph

/-! ## In a session -/

namespace Session

/-- In every session:

* a flow graph tells of its nodes, and refuses all other handles;
* a table tells of the nodes of the flow graph on which it was made, and refuses all other
  handles;
* an interference graph can be built on a flow graph from a table exactly if the flow graph is
  empty or has the origin of the one on which the table was made.  Then it is the one that is
  built from a fresh table, but for the tag, and otherwise the first node is refused. -/
theorem run_belongs (requests : List Request) :
    (∀ e ∈ (run requests).flows, ∀ a,
      (a ∈ e.flow.nodes ∧ ∃ node, e.flow.Tells a node) ∨ (a ∉ e.flow.nodes ∧ e.flow.Refuses a)) ∧
    (∀ t ∈ (run requests).tables, ∃ e, (run requests).flows[t.flow]? = some e ∧ ∀ a,
      (a ∈ e.flow.nodes ∧ t.live.Tells a) ∨ (a ∉ e.flow.nodes ∧ t.live.Refuses a)) ∧
    ∀ e ∈ (run requests).flows, ∀ t ∈ (run requests).tables, ∀ tag registers model,
      ((e.flow.nodes = [] ∨ (run requests).origin? t = some e.origin) →
        ∀ tag' solver, ∃ ig ig',
          InterferenceGraph.build tag e.flow t.live registers model = .ok ig ∧
            e.flow.interferenceGraph tag' registers ⟨solver, model⟩ = .ok ig' ∧
            InterferenceGraph.Alike (.exchange tag tag') ig ig') ∧
      (¬ (e.flow.nodes = [] ∨ (run requests).origin? t = some e.origin) →
        ∃ first, e.flow.nodes.head? = some first ∧
          InterferenceGraph.build tag e.flow t.live registers model =
            .error (.nodeNotFound first)) := by
  have h := run_coherent requests
  generalize run requests = S at h
  refine ⟨fun e _ a => e.flow.tells_or_refuses a, fun t h_t => ?_,
    fun e h_e t h_t tag registers model => ⟨fun h_kin tag' solver => ?_, fun h_kin => ?_⟩⟩
  · obtain ⟨e, h_e, h_table⟩ := h.made t h_t
    obtain ⟨_, _, _, h_laid⟩ := h.laidOut e (List.mem_of_getElem? h_e)
    exact ⟨e, h_e, h_table.tells_or_refuses h_laid⟩
  · obtain ⟨_, _, _, h_laid⟩ := h.laidOut e h_e
    have h_fresh := Liveness.isTableOf_compute h_laid solver
    obtain ⟨plan, _, h_blueprint⟩ := h_laid.exists_blueprint registers model
    obtain ⟨ig', h_ig', h_realizes'⟩ := h_blueprint h_fresh tag'
    rcases h_kin with h_empty | h_origin
    · -- without nodes the table is not looked at
      obtain ⟨ig, h_ig, h_realizes⟩ := h_blueprint h_fresh tag
      refine ⟨ig, ig', ?_, h_ig', h_realizes.alike h_realizes'⟩
      rw [← h_ig]
      refine InterferenceGraph.build_congr ?_ tag registers model
      rw [h_empty]
      rfl
    · obtain ⟨ig, h_ig, h_realizes⟩ := h_blueprint (h.isTableOf h_e h_t h_origin) tag
      exact ⟨ig, ig', h_ig, h_ig', h_realizes.alike h_realizes'⟩
  · obtain ⟨h_some, h_origin⟩ := not_or.mp h_kin
    obtain ⟨first, rest, h_nodes⟩ := List.exists_cons_of_ne_nil h_some
    have h_first : first ∈ e.flow.nodes := h_nodes ▸ List.mem_cons_self
    exact ⟨first, congrArg List.head? h_nodes, InterferenceGraph.build_of_unknown h_nodes
      (h.row?_eq_none h_e h_t h_origin h_first) tag registers model⟩

end Session

end LiveRange
