import LiveRange.Proofs.Flow.Positions
import LiveRange.Proofs.Graph.Edges

/-! # How a flow graph is laid out

The flow graph that is built from a body has one node for each instruction, at the handle
that holds the instruction's position, and all of its edges lead from such a handle to
another (`FlowGraph.build_laidOut`).  `FlowGraph.LaidOut` is all that the analyses need to
know of the graph: the node at a position, and that successors are nodes. -/

namespace LiveRange

variable {tag : GraphTag} {body : List Instr}

/-! ## Nodes for a list of payloads -/

theorem Graph.foldl_newNode {P : Type} (payloads : List P) (g : Graph P) :
    (payloads.foldl (fun g payload => (g.newNode payload).2) g).labels =
        g.labels ++ (payloads.zipIdx g.slots.size).map (fun e => (⟨g.tag, e.2⟩, e.1)) ∧
      ∀ edges, g.HasEdges edges →
        (payloads.foldl (fun g payload => (g.newNode payload).2) g).HasEdges edges := by
  induction payloads generalizing g with
  | nil => exact ⟨by simp, fun _ h => h⟩
  | cons payload rest ih =>
    obtain ⟨h_labels, h_edges⟩ := ih (g.newNode payload).2
    rw [List.foldl_cons]
    refine ⟨?_, fun edges h => h_edges edges (h.newNode payload)⟩
    rw [h_labels, labels_newNode, List.zipIdx_cons, List.map_cons, List.append_assoc]
    simp [newNode]

theorem Graph.labels_ofPayloads {P : Type} (tag : GraphTag) (payloads : List P) :
    (ofPayloads tag payloads).labels = payloads.zipIdx.map fun e => (⟨tag, e.2⟩, e.1) :=
  (foldl_newNode payloads (empty tag)).1

theorem Graph.hasEdges_ofPayloads {P : Type} (tag : GraphTag) (payloads : List P) :
    (ofPayloads tag payloads).HasEdges [] :=
  (foldl_newNode payloads (empty tag)).2 [] (hasEdges_empty tag)

theorem Graph.contains_ofPayloads {P : Type} {payloads : List P} {i : Nat}
    (h : i < payloads.length) : (ofPayloads tag payloads).contains ⟨tag, i⟩ = true := by
  rw [← mem_nodes, ← labels_map_fst, labels_ofPayloads]
  simp only [List.map_map, List.mem_map, Function.comp_apply, NodeId.mk.injEq, true_and]
  exact ⟨(payloads[i], i), List.mem_zipIdx_iff_getElem?.mpr (List.getElem?_eq_getElem h), rfl⟩

/-! ## The layout -/

namespace FlowGraph

theorem node_eq_ok {flow : FlowGraph} {a : NodeId} {node : Node Instr} :
    flow.node a = .ok node ↔ flow.graph.node? a = some node := by
  unfold FlowGraph.node
  cases flow.graph.node? a <;> simp

theorem instr_eq_ok {flow : FlowGraph} {a : NodeId} {i : Instr} :
    flow.instr a = .ok i ↔ ∃ node, flow.graph.node? a = some node ∧ node.payload = i := by
  simp only [instr, map_eq_ok, node_eq_ok]

/-- The nodes of a flow graph carry the instructions of a body in order, each at the handle
that holds its position, and its edges mirror one list. -/
structure LaidOut (flow : FlowGraph) (tag : GraphTag) (body : List Instr) : Prop where
  labels : flow.graph.labels = body.zipIdx.map fun e => (⟨tag, e.2⟩, e.1)
  edges : ∃ edges, flow.graph.HasEdges edges

/-- A graph that is built has a node for each instruction and an edge for each arc. -/
theorem graph_of_build {flow : FlowGraph} (h : build tag body = .ok flow) :
    flow.graph = (Graph.ofPayloads tag body).linkAll
      ((arcs body).map (Prod.map (NodeId.mk tag) (NodeId.mk tag))) := by
  obtain ⟨labels, h_labels, h⟩ := bind_eq_ok.mp h
  obtain ⟨edges, h_edges, h⟩ := bind_eq_ok.mp h
  cases h
  rw [flowEdges_eq h_labels h_edges]
  rfl

theorem hasEdges_of_build {flow : FlowGraph} (h : build tag body = .ok flow) :
    flow.graph.HasEdges
      (((arcs body).map (Prod.map (NodeId.mk tag) (NodeId.mk tag))).foldl draw []) := by
  rw [graph_of_build h]
  refine (Graph.hasEdges_ofPayloads tag body).linkAll fun e he => ?_
  obtain ⟨⟨a, b⟩, h_arc, rfl⟩ := List.mem_map.mp he
  have h_lt := lt_of_mem_nextOf (mem_arcs.mp h_arc)
  exact ⟨Graph.contains_ofPayloads h_lt.1, Graph.contains_ofPayloads h_lt.2⟩

theorem build_laidOut {flow : FlowGraph} (h : build tag body = .ok flow) : flow.LaidOut tag body := by
  refine ⟨?_, _, hasEdges_of_build h⟩
  rw [graph_of_build h, Graph.labels_linkAll, Graph.labels_ofPayloads]

namespace LaidOut

variable {flow : FlowGraph}

theorem nodes_eq (h : flow.LaidOut tag body) :
    flow.nodes = (List.range body.length).map (⟨tag, ·⟩) := by
  rw [nodes, ← Graph.labels_map_fst, h.labels, List.map_map, List.range_eq_range',
    ← List.zipIdx_map_snd 0 body, List.map_map]
  rfl

theorem mem_nodes (h : flow.LaidOut tag body) {i : Nat} (hi : i < body.length) :
    ⟨tag, i⟩ ∈ flow.nodes := by
  rw [h.nodes_eq]
  exact List.mem_map_of_mem (List.mem_range.mpr hi)

theorem tag_eq (h : flow.LaidOut tag body) {a : NodeId} (ha : a ∈ flow.nodes) : a.tag = tag := by
  rw [h.nodes_eq] at ha
  obtain ⟨i, _, rfl⟩ := List.mem_map.mp ha
  rfl

theorem body_eq (h : flow.LaidOut tag body) : flow.body = body := by
  have h_body : flow.body = flow.graph.labels.map Prod.snd := by
    simp [FlowGraph.body, Graph.labels]
  rw [h_body, h.labels, List.map_map]
  exact List.zipIdx_map_fst 0 body

theorem size_eq (h : flow.LaidOut tag body) : flow.size = body.length := by
  have h_length := congrArg List.length h.labels
  simpa [Graph.labels, FlowGraph.size, Graph.size] using h_length

theorem exists_node (h : flow.LaidOut tag body) {i : Nat} {instr : Instr}
    (h_instr : body[i]? = some instr) :
    ∃ node, flow.graph.node? ⟨tag, i⟩ = some node ∧ node.payload = instr := by
  rw [← Graph.mem_labels, h.labels]
  exact List.mem_map.mpr ⟨(instr, i), List.mem_zipIdx_iff_getElem?.mpr h_instr, rfl⟩

theorem payload_eq (h : flow.LaidOut tag body) {id : NodeId} {node : Node Instr}
    (h_node : flow.graph.node? id = some node) :
    id.tag = tag ∧ body[id.index]? = some node.payload := by
  have h_label := Graph.mem_labels.mpr ⟨node, h_node, rfl⟩
  rw [h.labels, List.mem_map] at h_label
  obtain ⟨⟨instr, i⟩, h_mem, h_eq⟩ := h_label
  cases h_eq
  exact ⟨rfl, List.mem_zipIdx_iff_getElem?.mp h_mem⟩

theorem exists_node_iff (h : flow.LaidOut tag body) {i : Nat} (p : Instr → Prop) :
    (∃ node, flow.graph.node? ⟨tag, i⟩ = some node ∧ p node.payload) ↔
      ∃ instr, body[i]? = some instr ∧ p instr := by
  constructor
  · intro h_node
    obtain ⟨node, h_node, h_payload⟩ := h_node
    exact ⟨_, (h.payload_eq h_node).2, h_payload⟩
  · intro h_instr
    obtain ⟨instr, h_instr, h_payload⟩ := h_instr
    obtain ⟨node, h_node, rfl⟩ := h.exists_node h_instr
    exact ⟨node, h_node, h_payload⟩

end LaidOut

end FlowGraph

end LiveRange
