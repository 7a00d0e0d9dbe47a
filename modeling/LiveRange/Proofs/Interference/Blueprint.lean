import LiveRange.Proofs.Interference.Building

/-! # The blueprint of an interference graph

What building an interference graph comes to can be said without handles.  A `Blueprint` lists the
machine registers and the mentioned temporaries, the pairs that are set apart, and the moves; the
nodes are the registers and the mentioned temporaries by first mention, and the edges are the
pairs both ways, each at its first occurrence.

`InterferenceGraph.Realizes` says that a graph is drawn from a blueprint under a tag.  Then every
node is known with its edges in their order (`Realizes.node?_eq`).  The graph that is built realizes
the blueprint that its flow graph and its table make (`InterferenceGraph.build_realizes`). -/

namespace LiveRange

/-- The two ends of a move instruction. -/
def Instr.ends? : Instr → Option (Temp × Temp)
  | .move _ dst src => some (dst, src)
  | _ => none

theorem Instr.ends?_eq_some {instr : Instr} {m : Temp × Temp} :
    instr.ends? = some m ↔ ∃ template, instr = .move template m.1 m.2 := by
  cases instr <;> simp [ends?, Prod.ext_iff]

/-- What an interference graph is drawn from. -/
structure Blueprint where
  registers : List Temp
  /-- The temporaries that instructions mention, once for each mention. -/
  mentions : List Temp
  /-- The pairs that are set apart; one may stand there several times. -/
  pairs : List (Temp × Temp)
  moves : List (Temp × Temp)
  model : SpillCost

namespace Blueprint

variable {plan : Blueprint} {tag : GraphTag} {t u : Temp}

/-- The temporaries that have nodes, in the order of these. -/
def temps (plan : Blueprint) : List Temp := (plan.registers ++ plan.mentions).eraseDups

/-- The edges, in the order in which they are drawn. -/
def arcs (plan : Blueprint) : List (Temp × Temp) :=
  (plan.pairs.flatMap fun p => [p, p.swap]).eraseDups

/-- The temporaries that must not share a register with one, in the order in which they are
found. -/
def partners (plan : Blueprint) (t : Temp) : List Temp := (plan.arcs.filter (·.1 = t)).map Prod.snd

/-- The temporaries from which an edge leads to one. -/
def sources (plan : Blueprint) (t : Temp) : List Temp := (plan.arcs.filter (·.2 = t)).map Prod.fst

/-- The handle of a temporary in a graph that is drawn under a tag. -/
def node (plan : Blueprint) (tag : GraphTag) (t : Temp) : NodeId := ⟨tag, plan.temps.idxOf t⟩

def move (plan : Blueprint) (tag : GraphTag) (m : Temp × Temp) : Move :=
  ⟨plan.node tag m.1, plan.node tag m.2⟩

/-- The blueprint of a body whose instructions stand next to the temporaries live after them. -/
def ofBody (registers : List Temp) (body : List Instr) (liveOuts : List (List Temp))
    (model : SpillCost) : Blueprint where
  registers := registers
  mentions := LiveRange.mentions body
  pairs := (body.zip liveOuts).flatMap fun e => e.1.conflicts e.2
  moves := body.filterMap Instr.ends?
  model := model

/-- All that is set apart and moved has nodes. -/
structure Closed (plan : Blueprint) : Prop where
  pairs : ∀ p ∈ plan.pairs, p.1 ∈ plan.temps ∧ p.2 ∈ plan.temps
  moves : ∀ m ∈ plan.moves, m.1 ∈ plan.temps ∧ m.2 ∈ plan.temps

theorem mem_temps : t ∈ plan.temps ↔ t ∈ plan.registers ∨ t ∈ plan.mentions := by
  rw [temps, List.mem_eraseDups, List.mem_append]

theorem node_inj (ht : t ∈ plan.temps) (h : plan.node tag t = plan.node tag u) : t = u :=
  (List.idxOf_inj ht).mp (NodeId.mk.inj h).2

theorem mem_arcs : (t, u) ∈ plan.arcs ↔ (t, u) ∈ plan.pairs ∨ (u, t) ∈ plan.pairs := by
  simp only [arcs, List.mem_eraseDups, List.mem_flatMap, List.mem_cons, List.not_mem_nil, or_false]
  constructor
  · rintro ⟨p, hp, rfl | h_swap⟩
    · exact .inl hp
    · cases h_swap
      exact .inr hp
  · rintro (h_pair | h_pair)
    · exact ⟨_, h_pair, .inl rfl⟩
    · exact ⟨_, h_pair, .inr rfl⟩

theorem mem_partners : u ∈ plan.partners t ↔ (t, u) ∈ plan.arcs := by
  simp only [partners, List.mem_map, List.mem_filter, decide_eq_true_eq]
  constructor
  · rintro ⟨e, ⟨h_arc, rfl⟩, rfl⟩
    exact h_arc
  · exact fun h_arc => ⟨_, ⟨h_arc, rfl⟩, rfl⟩

/-- Among the edges from one node the first to each other node counts. -/
theorem partners_eq_eraseDups (plan : Blueprint) (t : Temp) :
    plan.partners t =
      (((plan.pairs.flatMap fun p => [p, p.swap]).filter (·.1 = t)).map Prod.snd).eraseDups := by
  rw [partners, arcs, ← eraseDups_filter, ← eraseDups_map_on]
  intro e he e' he' h_second
  have h_first := of_decide_eq_true (List.mem_filter.mp he).2
  have h_first' := of_decide_eq_true (List.mem_filter.mp he').2
  exact Prod.ext (h_first.trans h_first'.symm) h_second

theorem sources_eq_eraseDups (plan : Blueprint) (t : Temp) :
    plan.sources t =
      (((plan.pairs.flatMap fun p => [p, p.swap]).filter (·.2 = t)).map Prod.fst).eraseDups := by
  rw [sources, arcs, ← eraseDups_filter, ← eraseDups_map_on]
  intro e he e' he' h_first
  have h_second := of_decide_eq_true (List.mem_filter.mp he).2
  have h_second' := of_decide_eq_true (List.mem_filter.mp he').2
  exact Prod.ext h_first (h_second.trans h_second'.symm)

theorem nodup_partners : (plan.partners t).Nodup := by
  rw [partners_eq_eraseDups]
  exact nodup_eraseDups _

theorem Closed.arcs (h : plan.Closed) : ∀ e ∈ plan.arcs, e.1 ∈ plan.temps ∧ e.2 ∈ plan.temps := by
  intro e he
  rcases mem_arcs.mp he with h_pair | h_pair
  · exact h.pairs _ h_pair
  · exact (h.pairs _ h_pair).symm

theorem ofBody_closed (registers : List Temp) {body : List Instr} {liveOuts : List (List Temp)}
    (h_live : ∀ ts ∈ liveOuts, ∀ t ∈ ts, t ∈ LiveRange.mentions body) (model : SpillCost) :
    (ofBody registers body liveOuts model).Closed := by
  have h_named : ∀ instr ∈ body, ∀ t ∈ instr.mentions,
      t ∈ (ofBody registers body liveOuts model).temps := fun instr h_instr t ht =>
    mem_temps.mpr (.inr (List.mem_flatMap.mpr ⟨instr, h_instr, ht⟩))
  refine ⟨fun p hp => ?_, fun m hm => ?_⟩
  · obtain ⟨e, he, h_pair⟩ := List.mem_flatMap.mp hp
    obtain ⟨h_instr, h_out⟩ := List.of_mem_zip he
    obtain ⟨h_def, h_mem, _⟩ := Instr.mem_conflicts.mp h_pair
    exact ⟨h_named _ h_instr _ (List.mem_append_left _ h_def),
      mem_temps.mpr (.inr (h_live _ h_out _ h_mem))⟩
  · obtain ⟨instr, h_instr, h_ends⟩ := List.mem_filterMap.mp hm
    obtain ⟨template, rfl⟩ := Instr.ends?_eq_some.mp h_ends
    exact ⟨h_named _ h_instr _ (by simp [Instr.mentions, Instr.defs]),
      h_named _ h_instr _ (by simp [Instr.mentions, Instr.uses])⟩

end Blueprint

namespace InterferenceGraph

variable {ig : InterferenceGraph} {plan : Blueprint} {tag : GraphTag} {t u : Temp} {a : NodeId}

/-- The graph is drawn from a blueprint, with the handles of a tag. -/
structure Realizes (ig : InterferenceGraph) (plan : Blueprint) (tag : GraphTag) : Prop where
  closed : plan.Closed
  lists : ig.graph.Lists tag plan.temps
  edges : ig.graph.graph.HasEdges (plan.arcs.map (Prod.map (plan.node tag) (plan.node tag)))
  moves : ig.moves = plan.moves.map (plan.move tag)
  precolored : ig.precolored = plan.registers.map (plan.node tag)
  mentioned : ig.mentioned = plan.mentions.map (plan.node tag)
  model : ig.model = plan.model

namespace Realizes

theorem lookup_eq (h : ig.Realizes plan tag) (t : Temp) :
    ig.graph.lookup t = if t ∈ plan.temps then some (plan.node tag t) else none := by
  split
  · rename_i ht
    exact h.lists.lookup_of_mem ht
  · rename_i ht
    exact Option.eq_none_iff_forall_ne_some.mpr fun _ h_key => ht (h.lists.mem_of_lookup h_key)

theorem exists_temp (h : ig.Realizes plan tag) {node : Node Temp}
    (h_node : ig.graph.graph.node? a = some node) : ∃ t ∈ plan.temps, a = plan.node tag t := by
  have h_key := h.lists.indexed.lookup_iff.mpr (Graph.mem_labels.mpr ⟨node, h_node, rfl⟩)
  have h_mem := h.lists.mem_of_lookup h_key
  rw [h.lookup_eq, if_pos h_mem, Option.some.injEq] at h_key
  exact ⟨_, h_mem, h_key.symm⟩

/-- The node of a temporary, with its edges in their order. -/
theorem node?_eq (h : ig.Realizes plan tag) (ht : t ∈ plan.temps) :
    ig.graph.graph.node? (plan.node tag t) = some
      ⟨t, (plan.partners t).map (plan.node tag), (plan.sources t).map (plan.node tag)⟩ := by
  have h_lookup := h.lookup_eq t
  rw [if_pos ht] at h_lookup
  obtain ⟨node, h_node, rfl⟩ := h.lists.indexed.exists_node h_lookup
  -- edges lead between nodes of temporaries, so those at this node are those of its temporary
  have h_first : ∀ e ∈ plan.arcs,
      (plan.node tag e.1 = plan.node tag node.payload ↔ e.1 = node.payload) := fun e he =>
    ⟨Blueprint.node_inj (h.closed.arcs e he).1, congrArg _⟩
  have h_second : ∀ e ∈ plan.arcs,
      (plan.node tag e.2 = plan.node tag node.payload ↔ e.2 = node.payload) := fun e he =>
    ⟨Blueprint.node_inj (h.closed.arcs e he).2, congrArg _⟩
  have h_succs : node.succs = (plan.partners node.payload).map (plan.node tag) := by
    rw [h.edges.succs h_node, List.filter_map, List.map_map, Blueprint.partners, List.map_map,
      ← List.filter_congr fun e he => decide_eq_decide.mpr (h_first e he)]
    rfl
  have h_preds : node.preds = (plan.sources node.payload).map (plan.node tag) := by
    rw [h.edges.preds h_node, List.filter_map, List.map_map, Blueprint.sources, List.map_map,
      ← List.filter_congr fun e he => decide_eq_decide.mpr (h_second e he)]
    rfl
  rw [h_node, ← h_succs, ← h_preds]

theorem get?_eq (h : ig.Realizes plan tag) (ht : t ∈ plan.temps) :
    ig.graph.graph.get? (plan.node tag t) = some t := by
  rw [Graph.get?, h.node?_eq ht, Option.map_some]

end Realizes

/-! ## What is built -/

/-- The graph with a node for every register and every mention realizes the blueprint that has
neither edges nor moves. -/
theorem ofTemps_realizes (tag : GraphTag) (registers mentions : List Temp) (model : SpillCost) :
    (ofTemps tag registers mentions model).Realizes ⟨registers, mentions, [], [], model⟩ tag := by
  have h_empty : (KeyedGraph.empty tag : KeyedGraph Temp).Lists tag ([] : List Temp).eraseDups :=
    ⟨KeyedGraph.indexed_empty tag, rfl, rfl, rfl⟩
  have h_lists := (h_empty.nodesFor registers).nodesFor mentions
  rw [List.nil_append] at h_lists
  obtain ⟨_, h_edges, _⟩ := ofTemps_ready tag registers mentions model
  have h_lookup : ∀ t ∈ registers ++ mentions,
      (ofTemps tag registers mentions model).graph.lookup t =
        some (Blueprint.node ⟨registers, mentions, [], [], model⟩ tag t) := fun t ht =>
    h_lists.lookup_of_mem (List.mem_eraseDups.mpr ht)
  refine ⟨⟨nofun, nofun⟩, h_lists, h_edges, rfl, ?_, ?_, rfl⟩
  · refine KeyedGraph.nodesFor_eq_map fun t ht => ?_
    -- the nodes of the registers are kept when those of the mentions are made
    obtain ⟨id, h_id⟩ := KeyedGraph.lookup_nodesFor_of_mem (g := .empty tag) ht
    have h_kept := KeyedGraph.lookup_nodesFor_of_some h_id mentions
    rw [h_id, ← h_lookup t (List.mem_append_left _ ht)]
    exact h_kept.symm
  · exact KeyedGraph.nodesFor_eq_map fun t ht => h_lookup t (List.mem_append_right _ ht)

theorem Realizes.bothWays_eq (h : ig.Realizes plan tag) {pairs : List (Temp × Temp)}
    (h_known : ∀ p ∈ pairs, p.1 ∈ plan.temps ∧ p.2 ∈ plan.temps) :
    pairs.flatMap ig.graph.bothWays =
      (pairs.flatMap fun p => [p, p.swap]).map (Prod.map (plan.node tag) (plan.node tag)) := by
  rw [List.map_flatMap]
  refine List.flatMap_congr fun p hp => ?_
  have h_both := h_known p hp
  rw [KeyedGraph.bothWays, h.lookup_eq, h.lookup_eq, if_pos h_both.1, if_pos h_both.2]
  rfl

theorem Realizes.movesOf_eq (h : ig.Realizes plan tag) {instr : Instr}
    (h_named : ∀ t ∈ instr.mentions, t ∈ plan.temps) :
    movesOf ig.graph.lookup instr = instr.ends?.toList.map (plan.move tag) := by
  cases instr with
  | move template dst src =>
    have h_dst : dst ∈ plan.temps := h_named dst (by simp [Instr.mentions, Instr.defs])
    have h_src : src ∈ plan.temps := h_named src (by simp [Instr.mentions, Instr.uses])
    simp only [movesOf, h.lookup_eq, if_pos h_dst, if_pos h_src]
    rfl
  | oper | label => rfl

theorem Realizes.flatMap_movesOf (h : ig.Realizes plan tag) (steps : List (Instr × List Temp))
    (h_named : ∀ e ∈ steps, ∀ t ∈ e.1.mentions, t ∈ plan.temps) :
    steps.flatMap (fun e => movesOf ig.graph.lookup e.1) =
      ((steps.map Prod.fst).filterMap Instr.ends?).map (plan.move tag) := by
  rw [List.flatMap_congr fun e he => h.movesOf_eq (h_named e he), List.filterMap_map,
    List.filterMap_eq_flatMap_toList, List.map_flatMap]
  rfl

/-- The edges that are drawn between nodes are the arcs between their temporaries. -/
theorem foldl_draw_arcs (h : plan.Closed) (tag : GraphTag) :
    ((plan.pairs.flatMap fun p => [p, p.swap]).map (Prod.map (plan.node tag) (plan.node tag))).foldl
        draw [] = plan.arcs.map (Prod.map (plan.node tag) (plan.node tag)) := by
  rw [foldl_draw_nil, eraseDups_map_on, Blueprint.arcs]
  intro e he e' _ h_eq
  have h_ends := h.arcs e (List.mem_eraseDups.mpr he)
  obtain ⟨h_first, h_second⟩ := Prod.mk.inj h_eq
  exact Prod.ext (Blueprint.node_inj h_ends.1 h_first) (Blueprint.node_inj h_ends.2 h_second)

/-- Building the graph of a flow graph, from a table that knows its nodes and holds no
temporary the flow graph does not mention, realizes the blueprint of its body. -/
theorem build_realizes {flow : FlowGraph} {live : Liveness} {liveOuts : List (List Temp)}
    (h_outs : flow.nodes.mapM live.liveOutTemps = .ok liveOuts)
    (h_live : ∀ ts ∈ liveOuts, ∀ t ∈ ts, t ∈ mentions flow.body) (registers : List Temp)
    (model : SpillCost) (tag : GraphTag) :
    ∃ ig, build tag flow live registers model = .ok ig ∧
      ig.Realizes (.ofBody registers flow.body liveOuts model) tag := by
  refine ⟨_, build_eq h_outs h_live registers model, ?_⟩
  -- registers and mentions already have the nodes of the blueprint
  have h := ofTemps_realizes tag registers (mentions flow.body) model
  generalize ofTemps tag registers (mentions flow.body) model = ig at h
  have h_closed := Blueprint.ofBody_closed registers h_live model
  refine ⟨h_closed, h.lists.setApart _, ?_, ?_, h.precolored, h.mentioned, h.model⟩
  · have h_edges := h.lists.indexed.hasEdges_setApart h.edges
      (Blueprint.ofBody registers flow.body liveOuts model).pairs
    rw [h.bothWays_eq h_closed.pairs] at h_edges
    rw [← foldl_draw_arcs h_closed]
    exact h_edges
  · have h_length : flow.body.length ≤ liveOuts.length := by
      simpa [FlowGraph.body, FlowGraph.nodes, Graph.nodes] using
        Nat.le_of_eq (forall₂_of_mapM_eq_ok h_outs).length_eq
    have h_moves := h.flatMap_movesOf (flow.body.zip liveOuts) fun e he t ht =>
      Blueprint.mem_temps.mpr (.inr (List.mem_flatMap.mpr ⟨e.1, (List.of_mem_zip he).1, ht⟩))
    rw [List.map_fst_zip h_length] at h_moves
    rw [record, h.moves, h_moves]
    rfl

end InterferenceGraph

end LiveRange
