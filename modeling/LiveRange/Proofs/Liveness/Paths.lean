import Mathlib.Data.List.Chain
import LiveRange.Liveness.Solve
import LiveRange.Proofs.Dataflow.GenKill
import LiveRange.Proofs.Flow.Layout

/-! # Paths along which a temporary is live

`FlowGraph.ReadPath` is a path from a node to a later read of a temporary that no node in
between writes; `FlowGraph.LiveAfter` says that there is one.  It mentions no equations, no
numbers and no solver.

What the equations make of such paths is counted in rounds: after `k` rounds from empty sets,
a temporary is live after a node exactly if it is read at the end of a path with fewer than
`k` nodes in between (`LaidOut.holds_gather_ascend`). -/

namespace LiveRange.FlowGraph

variable {flow : FlowGraph} {t : Temp} {a b c : NodeId} {between : List NodeId}

/-! ## Paths -/

/-- `b` may execute right after `a`. -/
def Edge (flow : FlowGraph) (a b : NodeId) : Prop := ∃ succs, flow.successors a = .ok succs ∧ b ∈ succs

def Reads (flow : FlowGraph) (t : Temp) (a : NodeId) : Prop :=
  ∃ uses, flow.uses a = .ok uses ∧ t ∈ uses

def Writes (flow : FlowGraph) (t : Temp) (a : NodeId) : Prop :=
  ∃ defs, flow.defs a = .ok defs ∧ t ∈ defs

/-- Control may pass from `a` over the nodes `between` to `last`, which reads `t`, and none of
the nodes in between writes `t`. -/
structure ReadPath (flow : FlowGraph) (t : Temp) (a : NodeId) (between : List NodeId)
    (last : NodeId) : Prop where
  chain : (a :: (between ++ [last])).IsChain flow.Edge
  silent : ∀ c ∈ between, ¬ flow.Writes t c
  reads : flow.Reads t last

/-- What a temporary holds after a node may be read before it is written again. -/
def LiveAfter (flow : FlowGraph) (t : Temp) (a : NodeId) : Prop :=
  ∃ between last, flow.ReadPath t a between last

/-- What a temporary holds before a node may be read, by the node itself or later, before it is
written. -/
def LiveBefore (flow : FlowGraph) (t : Temp) (a : NodeId) : Prop :=
  flow.Reads t a ∨ flow.LiveAfter t a ∧ ¬ flow.Writes t a

theorem readPath_nil : flow.ReadPath t a [] b ↔ flow.Edge a b ∧ flow.Reads t b := by
  constructor
  · intro h_path
    exact ⟨List.isChain_pair.mp h_path.chain, h_path.reads⟩
  · intro ⟨h_edge, h_reads⟩
    exact ⟨List.isChain_pair.mpr h_edge, fun _ hc => absurd hc List.not_mem_nil, h_reads⟩

theorem readPath_cons :
    flow.ReadPath t a (c :: between) b ↔
      flow.Edge a c ∧ ¬ flow.Writes t c ∧ flow.ReadPath t c between b := by
  constructor
  · intro h_path
    obtain ⟨h_chain, h_silent, h_reads⟩ := h_path
    rw [List.cons_append, List.isChain_cons_cons] at h_chain
    rw [List.forall_mem_cons] at h_silent
    exact ⟨h_chain.1, h_silent.1, h_chain.2, h_silent.2, h_reads⟩
  · intro h_path
    obtain ⟨h_edge, h_first, h_chain, h_silent, h_reads⟩ := h_path
    refine ⟨?_, List.forall_mem_cons.mpr ⟨h_first, h_silent⟩, h_reads⟩
    rw [List.cons_append, List.isChain_cons_cons]
    exact ⟨h_edge, h_chain⟩

theorem liveAfter_iff : flow.LiveAfter t a ↔ ∃ b, flow.Edge a b ∧ flow.LiveBefore t b := by
  constructor
  · intro h_live
    obtain ⟨_ | ⟨c, between⟩, last, h_path⟩ := h_live
    · obtain ⟨h_edge, h_reads⟩ := readPath_nil.mp h_path
      exact ⟨last, h_edge, .inl h_reads⟩
    · obtain ⟨h_edge, h_silent, h_path⟩ := readPath_cons.mp h_path
      exact ⟨c, h_edge, .inr ⟨⟨between, last, h_path⟩, h_silent⟩⟩
  · intro h_next
    obtain ⟨b, h_edge, h_reads | ⟨⟨between, last, h_path⟩, h_silent⟩⟩ := h_next
    · exact ⟨[], b, readPath_nil.mpr ⟨h_edge, h_reads⟩⟩
    · exact ⟨b :: between, last, readPath_cons.mpr ⟨h_edge, h_silent, h_path⟩⟩

/-! ## Edges, reads and writes of a node -/

section Node

variable {node : Node Instr}

theorem edge_iff_exists : flow.Edge a b ↔ ∃ node, flow.graph.node? a = some node ∧ b ∈ node.succs := by
  simp only [Edge, successors, map_eq_ok, node_eq_ok]
  constructor
  · intro h_edge
    obtain ⟨_, ⟨node, h_node, rfl⟩, h_mem⟩ := h_edge
    exact ⟨node, h_node, h_mem⟩
  · intro h_found
    obtain ⟨node, h_node, h_mem⟩ := h_found
    exact ⟨_, ⟨node, h_node, rfl⟩, h_mem⟩

theorem reads_iff_exists :
    flow.Reads t a ↔ ∃ node, flow.graph.node? a = some node ∧ t ∈ node.payload.uses := by
  simp only [Reads, uses, map_eq_ok, instr_eq_ok]
  constructor
  · intro h_reads
    obtain ⟨_, ⟨_, ⟨node, h_node, rfl⟩, rfl⟩, h_mem⟩ := h_reads
    exact ⟨node, h_node, h_mem⟩
  · intro h_found
    obtain ⟨node, h_node, h_mem⟩ := h_found
    exact ⟨_, ⟨_, ⟨node, h_node, rfl⟩, rfl⟩, h_mem⟩

theorem writes_iff_exists :
    flow.Writes t a ↔ ∃ node, flow.graph.node? a = some node ∧ t ∈ node.payload.defs := by
  simp only [Writes, defs, map_eq_ok, instr_eq_ok]
  constructor
  · intro h_writes
    obtain ⟨_, ⟨_, ⟨node, h_node, rfl⟩, rfl⟩, h_mem⟩ := h_writes
    exact ⟨node, h_node, h_mem⟩
  · intro h_found
    obtain ⟨node, h_node, h_mem⟩ := h_found
    exact ⟨_, ⟨_, ⟨node, h_node, rfl⟩, rfl⟩, h_mem⟩

theorem edge_iff (h_node : flow.graph.node? a = some node) : flow.Edge a b ↔ b ∈ node.succs := by
  simp [edge_iff_exists, h_node]

theorem reads_iff (h_node : flow.graph.node? a = some node) :
    flow.Reads t a ↔ t ∈ node.payload.uses := by
  simp [reads_iff_exists, h_node]

theorem writes_iff (h_node : flow.graph.node? a = some node) :
    flow.Writes t a ↔ t ∈ node.payload.defs := by
  simp [writes_iff_exists, h_node]

end Node

/-! ## The equations of a laid-out graph -/

/-- The liveness equations over the temporaries a flow graph mentions. -/
abbrev equations (flow : FlowGraph) : Dataflow.Problem flow.size BitSet := flow.problem flow.numbering

theorem equations_eq (flow : FlowGraph) :
    flow.equations = .genKill (fun i => (flow.table.get i).2.succs.map NodeId.index)
      (fun i => flow.numbering.encode (flow.table.get i).2.payload.uses)
      (fun i => flow.numbering.encode (flow.table.get i).2.payload.defs) := by
  have h_get : ∀ temps : Instr → List Temp,
      (flow.table.map fun e => flow.numbering.encode (temps e.2.payload)).get =
        fun i => flow.numbering.encode (temps (flow.table.get i).2.payload) :=
    fun _ => funext fun i => Vector.getElem_map _ i.isLt
  exact congrArg₂ (Dataflow.Problem.genKill _) (h_get Instr.uses) (h_get Instr.defs)

theorem holds_gather {ins : Fin flow.size → BitSet} {i : Fin flow.size} :
    flow.numbering.holds (flow.equations.gather ins i) t = true ↔
      ∃ s : Fin flow.size,
        (s : Nat) ∈ flow.equations.succs i ∧ flow.numbering.holds (ins s) t = true := by
  simp only [Numbering.holds_iff, equations_eq, Dataflow.Problem.mem_gather_genKill]
  constructor
  · intro h_held
    obtain ⟨e, h_number, s, h_succ, h_mem⟩ := h_held
    exact ⟨s, h_succ, e, h_number, h_mem⟩
  · intro h_held
    obtain ⟨s, h_succ, e, h_number, h_mem⟩ := h_held
    exact ⟨e, h_number, s, h_succ, h_mem⟩

namespace LaidOut

variable {tag : GraphTag} {body : List Instr}

theorem table_get (h : flow.LaidOut tag body) (i : Fin flow.size) :
    (flow.table.get i).1 = ⟨tag, i⟩ ∧ flow.graph.node? ⟨tag, i⟩ = some (flow.table.get i).2 := by
  have hi : (i : Nat) < flow.graph.entries.length := i.isLt
  have h_get : flow.table.get i = flow.graph.entries[(i : Nat)] := rfl
  have h_id : (flow.graph.entries[(i : Nat)]).1 = ⟨tag, i⟩ := by
    have h_nodes : flow.nodes[(i : Nat)]? = some (flow.graph.entries[(i : Nat)]).1 := by
      rw [nodes, Graph.nodes, List.getElem?_map, List.getElem?_eq_getElem hi]
      rfl
    rw [h.nodes_eq] at h_nodes
    simp [← h.size_eq] at h_nodes
    exact h_nodes.symm
  rw [h_get]
  refine ⟨h_id, ?_⟩
  rw [← h_id]
  exact Graph.mem_entries.mp (List.getElem_mem hi)

theorem node?_eq (h : flow.LaidOut tag body) (i : Fin flow.size) :
    flow.graph.node? ⟨tag, i⟩ = some (flow.table.get i).2 :=
  (h.table_get i).2

theorem exists_position (h : flow.LaidOut tag body) (ha : a ∈ flow.nodes) :
    ∃ i : Fin flow.size, a = ⟨tag, i⟩ := by
  rw [h.nodes_eq, List.mem_map] at ha
  obtain ⟨i, hi, rfl⟩ := ha
  rw [List.mem_range, ← h.size_eq] at hi
  exact ⟨⟨i, hi⟩, rfl⟩

theorem exists_node_of_edge (h : flow.LaidOut tag body) (h_edge : flow.Edge a b) :
    ∃ node, flow.graph.node? b = some node := by
  obtain ⟨edges, h_edges⟩ := h.edges
  obtain ⟨node, h_node, h_mem⟩ := edge_iff_exists.mp h_edge
  exact Graph.contains_iff.mp (h_edges.live _ ((h_edges.mem_succs h_node).mp h_mem)).2

theorem edge_iff_succs (h : flow.LaidOut tag body) {i : Fin flow.size} :
    flow.Edge ⟨tag, i⟩ b ↔ ∃ s : Fin flow.size, b = ⟨tag, s⟩ ∧ (s : Nat) ∈ flow.equations.succs i := by
  have h_target : ∀ x ∈ (flow.table.get i).2.succs, ∃ s : Fin flow.size, x = ⟨tag, s⟩ := by
    intro x hx
    obtain ⟨node, h_node⟩ := h.exists_node_of_edge ((edge_iff (h.node?_eq i)).mpr hx)
    obtain ⟨h_tag, h_payload⟩ := h.payload_eq h_node
    have h_lt : x.index < flow.size := h.size_eq ▸ (List.getElem?_eq_some_iff.mp h_payload).1
    exact ⟨⟨x.index, h_lt⟩, by rw [← h_tag]⟩
  rw [edge_iff (h.node?_eq i), equations_eq]
  simp only [Dataflow.Problem.genKill, List.mem_map]
  constructor
  · intro hb
    obtain ⟨s, rfl⟩ := h_target b hb
    exact ⟨s, rfl, _, hb, rfl⟩
  · intro h_found
    obtain ⟨s, rfl, x, hx, h_index⟩ := h_found
    obtain ⟨s', rfl⟩ := h_target x hx
    have h_same : s' = s := Fin.ext h_index
    rwa [← h_same]

theorem inRange (h : flow.LaidOut tag body) : flow.equations.InRange := by
  intro i s hs
  rw [equations_eq] at hs
  obtain ⟨x, hx, rfl⟩ := List.mem_map.mp hs
  obtain ⟨s', rfl, _⟩ := h.edge_iff_succs.mp ((edge_iff (h.node?_eq i)).mpr hx)
  exact s'.isLt

theorem mem_mentions (h : flow.LaidOut tag body) {node : Node Instr}
    (h_node : flow.graph.node? a = some node) (ht : t ∈ node.payload.mentions) : t ∈ mentions body :=
  List.mem_flatMap.mpr ⟨_, List.mem_of_getElem? (h.payload_eq h_node).2, ht⟩

theorem mem_mentions_of_liveAfter (h : flow.LaidOut tag body) (h_live : flow.LiveAfter t a) :
    t ∈ mentions body := by
  obtain ⟨_, last, h_path⟩ := h_live
  obtain ⟨node, h_node, ht⟩ := reads_iff_exists.mp h_path.reads
  exact h.mem_mentions h_node (List.mem_append_right _ ht)

theorem numbered (h : flow.LaidOut tag body) (i : Fin flow.size) :
    ∀ t ∈ (flow.table.get i).2.payload.mentions, t ∈ flow.numbering.temps := by
  intro t ht
  rw [numbering, Numbering.mem_ofMentions, h.body_eq]
  exact h.mem_mentions (h.node?_eq i) ht

/-- A temporary is held before a node when the node reads it, or when it is held after the
node and the node does not write it. -/
theorem holds_advance (h : flow.LaidOut tag body) {ins : Fin flow.size → BitSet} {i : Fin flow.size} :
    flow.numbering.holds (flow.equations.advance ins i) t = true ↔
      flow.Reads t ⟨tag, i⟩ ∨
        flow.numbering.holds (flow.equations.gather ins i) t = true ∧ ¬ flow.Writes t ⟨tag, i⟩ := by
  have h_numbered := h.numbered i
  simp only [Instr.mentions, List.mem_append, or_imp, forall_and] at h_numbered
  rw [reads_iff (h.node?_eq i), writes_iff (h.node?_eq i), ← Numbering.holds_encode h_numbered.1,
    ← Numbering.holds_encode h_numbered.2, equations_eq]
  simp only [Dataflow.Problem.advance, Dataflow.Problem.genKill, Numbering.holds_union,
    Numbering.holds_sdiff]

/-- After `k` rounds the temporaries held after a node are those read at the end of a path
with fewer than `k` nodes in between. -/
theorem holds_gather_ascend (h : flow.LaidOut tag body) (k : Nat) (i : Fin flow.size) :
    flow.numbering.holds (flow.equations.gather (flow.equations.ascend k) i) t = true ↔
      ∃ between last, flow.ReadPath t ⟨tag, i⟩ between last ∧ between.length < k := by
  induction k generalizing i with
  | zero =>
    have h_empty : ∀ s, ¬ flow.numbering.holds (flow.equations.ascend 0 s) t = true := by
      intro s
      rw [equations_eq, Bool.not_eq_true]
      exact Numbering.holds_empty
    rw [holds_gather]
    constructor
    · intro h_held
      obtain ⟨s, _, h_holds⟩ := h_held
      exact absurd h_holds (h_empty s)
    · intro h_path
      obtain ⟨_, _, _, h_short⟩ := h_path
      exact absurd h_short (Nat.not_lt_zero _)
  | succ k ih =>
    rw [holds_gather]
    simp only [Dataflow.Problem.ascend, h.holds_advance, ih]
    -- one more round looks one edge further: a successor ends the path or lies on it
    constructor
    · intro h_held
      obtain ⟨s, h_succ, h_live⟩ := h_held
      have h_edge : flow.Edge ⟨tag, i⟩ ⟨tag, s⟩ := h.edge_iff_succs.mpr ⟨s, rfl, h_succ⟩
      rcases h_live with h_reads | ⟨⟨between, last, h_path, h_short⟩, h_silent⟩
      · exact ⟨[], _, readPath_nil.mpr ⟨h_edge, h_reads⟩, Nat.succ_pos k⟩
      · exact ⟨_ :: between, last, readPath_cons.mpr ⟨h_edge, h_silent, h_path⟩,
          Nat.succ_lt_succ h_short⟩
    · intro h_path
      obtain ⟨_ | ⟨c, between⟩, last, h_path, h_short⟩ := h_path
      · obtain ⟨h_edge, h_reads⟩ := readPath_nil.mp h_path
        obtain ⟨s, rfl, h_succ⟩ := h.edge_iff_succs.mp h_edge
        exact ⟨s, h_succ, .inl h_reads⟩
      · obtain ⟨h_edge, h_silent, h_path⟩ := readPath_cons.mp h_path
        obtain ⟨s, rfl, h_succ⟩ := h.edge_iff_succs.mp h_edge
        exact ⟨s, h_succ, .inr ⟨⟨between, last, h_path, Nat.lt_of_succ_lt_succ h_short⟩, h_silent⟩⟩

end LaidOut

end LiveRange.FlowGraph
