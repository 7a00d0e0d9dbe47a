import Mathlib.Logic.Equiv.Basic
import LiveRange.Proofs.Interference.Edges
import LiveRange.Proofs.Interference.Blueprint
import LiveRange.Proofs.Liveness.Restart

/-! # Interference graphs that differ in their handles

Two graphs are `Alike` under a renaming of handles when all they answer is the same once the
handles in it are renamed: the nodes and the edges in their order, the moves, the registers and
the counts.  Graphs that are drawn from one blueprint under two tags are alike, with the one tag
in place of the other (`InterferenceGraph.Realizes.alike`).

A flow graph has one blueprint, whichever of its tables the interference graph is built from
(`FlowGraph.LaidOut.exists_blueprint`).  So it does not matter by which solver liveness is solved
(`FlowGraph.interferenceGraph_alike`). -/

namespace LiveRange

/-! ## Exchanging two tags -/

/-- The handle at the same position with the one tag in place of the other, both ways. -/
def NodeId.exchange (tag tag' : GraphTag) (a : NodeId) : NodeId :=
  ⟨Equiv.swap tag tag' a.tag, a.index⟩

theorem NodeId.exchange_injective (tag tag' : GraphTag) : (exchange tag tag').Injective := by
  intro a b h
  obtain ⟨h_tag, h_index⟩ := NodeId.mk.inj h
  exact congr (congrArg NodeId.mk ((Equiv.swap tag tag').injective h_tag)) h_index

theorem Blueprint.exchange_node (plan : Blueprint) (tag tag' : GraphTag) (t : Temp) :
    (plan.node tag t).exchange tag tag' = plan.node tag' t :=
  congrArg (NodeId.mk · _) (Equiv.swap_apply_left tag tag')

theorem Blueprint.map_exchange_node (plan : Blueprint) (tag tag' : GraphTag) (ts : List Temp) :
    (ts.map (plan.node tag)).map (NodeId.exchange tag tag') = ts.map (plan.node tag') := by
  rw [List.map_map]
  exact List.map_congr_left fun t _ => plan.exchange_node tag tag' t

namespace InterferenceGraph

variable {ig ig' : InterferenceGraph} {plan : Blueprint} {tag tag' : GraphTag} {a b : Temp}

/-! ## Alike graphs -/

/-- All that one graph answers is what the other one answers with its handles renamed. -/
structure Alike (rename : NodeId → NodeId) (ig ig' : InterferenceGraph) : Prop where
  nodes : ig'.graph.graph.nodes = ig.graph.graph.nodes.map rename
  node : ∀ t, ig'.node t = rename <$> ig.node t
  temp : ∀ x, (ig'.temp (rename x)).toOption = (ig.temp x).toOption
  neighbors : ∀ x, (ig'.neighbors (rename x)).toOption =
    (ig.neighbors x).toOption.map (·.map rename)
  predecessors : ∀ x, (ig'.graph.graph.predecessors (rename x)).toOption =
    (ig.graph.graph.predecessors x).toOption.map (·.map rename)
  interferes : ∀ a b, ig'.interferes a b = ig.interferes a b
  moves : ig'.moves = ig.moves.map fun m => ⟨rename m.dst, rename m.src⟩
  isPrecolored : ∀ x, ig'.isPrecolored (rename x) = ig.isPrecolored x
  occurrences : ∀ x, ig'.occurrences (rename x) = ig.occurrences x
  spillCost : ∀ x, (ig'.spillCost (rename x)).toOption = (ig.spillCost x).toOption

theorem toOption_entry (ig : InterferenceGraph) (x : NodeId) :
    (ig.entry x).toOption = ig.graph.graph.node? x := by
  unfold entry
  cases ig.graph.graph.node? x <;> rfl

theorem toOption_predecessors (ig : InterferenceGraph) (x : NodeId) :
    (ig.graph.graph.predecessors x).toOption = (ig.graph.graph.node? x).map Node.preds := by
  rw [Graph.predecessors, toOption_map, Graph.node]
  cases ig.graph.graph.node? x <;> rfl

namespace Realizes

theorem node_eq (h : ig.Realizes plan tag) (t : Temp) :
    ig.node t = if t ∈ plan.temps then .ok (plan.node tag t) else .error (.tempNotFound t) := by
  have h_lookup := h.lookup_eq t
  split
  · rename_i ht
    rw [if_pos ht] at h_lookup
    exact node_eq_ok.mpr h_lookup
  · rename_i ht
    rw [if_neg ht] at h_lookup
    simp only [InterferenceGraph.node, h_lookup]

theorem node_eq_ok_iff (h : ig.Realizes plan tag) {t : Temp} {x : NodeId} :
    ig.node t = .ok x ↔ t ∈ plan.temps ∧ plan.node tag t = x := by
  rw [h.node_eq]
  split <;> simp [*]

theorem interferes_eq (h : ig.Realizes plan tag) (a b : Temp) :
    ig.interferes a b =
      if a ∈ plan.temps then
        if b ∈ plan.temps then .ok (decide (b ∈ plan.partners a)) else .error (.tempNotFound b)
      else .error (.tempNotFound a) := by
  by_cases ha : a ∈ plan.temps
  · by_cases hb : b ∈ plan.temps
    · have h_mem : plan.node tag b ∈ (plan.partners a).map (plan.node tag) ↔
          b ∈ plan.partners a := by
        refine ⟨fun h_image => ?_, List.mem_map_of_mem⟩
        obtain ⟨u, hu, h_eq⟩ := List.mem_map.mp h_image
        exact Blueprint.node_inj hb h_eq.symm ▸ hu
      rw [if_pos ha, if_pos hb, interferes_eq_ok]
      refine ⟨plan.node tag a, plan.node tag b, _, ?_, ?_, h.node?_eq ha, ?_⟩
      · rw [h.lookup_eq, if_pos ha]
      · rw [h.lookup_eq, if_pos hb]
      · exact (decide_eq_decide.mpr h_mem).symm
    · rw [interferes, h.node_eq, h.node_eq, if_pos ha, if_neg hb, if_pos ha, if_neg hb]
      rfl
  · rw [interferes, h.node_eq, if_neg ha, if_neg ha]
    rfl

theorem nodes_eq (h : ig.Realizes plan tag) :
    ig.graph.graph.nodes = plan.temps.zipIdx.map fun e => ⟨tag, e.2⟩ := by
  rw [← Graph.labels_map_fst, h.lists.labels, List.map_map]
  rfl

theorem node?_exchange (h : ig.Realizes plan tag) (h' : ig'.Realizes plan tag') (x : NodeId) :
    ig'.graph.graph.node? (x.exchange tag tag') = (ig.graph.graph.node? x).map fun node =>
      ⟨node.payload, node.succs.map (.exchange tag tag'), node.preds.map (.exchange tag tag')⟩ := by
  by_cases h_named : ∃ t ∈ plan.temps, x = plan.node tag t
  · obtain ⟨t, ht, rfl⟩ := h_named
    rw [plan.exchange_node, h'.node?_eq ht, h.node?_eq ht, Option.map_some]
    simp only [plan.map_exchange_node]
  · -- a handle of no temporary stays one
    have h_none : ig.graph.graph.node? x = none :=
      Option.eq_none_iff_forall_ne_some.mpr fun _ h_node => h_named (h.exists_temp h_node)
    rw [h_none]
    refine Option.eq_none_iff_forall_ne_some.mpr fun _ h_node => h_named ?_
    obtain ⟨t, ht, h_eq⟩ := h'.exists_temp h_node
    rw [← plan.exchange_node tag tag' t] at h_eq
    exact ⟨t, ht, NodeId.exchange_injective tag tag' h_eq⟩

/-- Graphs that are drawn from one blueprint are alike. -/
theorem alike (h : ig.Realizes plan tag) (h' : ig'.Realizes plan tag') :
    Alike (.exchange tag tag') ig ig' := by
  have h_isPrecolored : ∀ x,
      ig'.isPrecolored (x.exchange tag tag') = ig.isPrecolored x := fun x => by
    rw [isPrecolored, isPrecolored, h'.precolored, h.precolored, ← plan.map_exchange_node tag tag',
      decide_eq_decide]
    exact List.mem_map_of_injective (NodeId.exchange_injective tag tag')
  have h_occurrences : ∀ x, ig'.occurrences (x.exchange tag tag') = ig.occurrences x := fun x => by
    rw [occurrences, occurrences, h'.mentioned, h.mentioned, ← plan.map_exchange_node tag tag']
    exact List.count_map_of_injective _ _ (NodeId.exchange_injective tag tag') _
  have h_neighbors : ∀ x, (ig'.neighbors (x.exchange tag tag')).toOption =
      (ig.neighbors x).toOption.map (·.map (.exchange tag tag')) := fun x => by
    rw [neighbors, neighbors, toOption_map, toOption_map, toOption_entry, toOption_entry,
      h.node?_exchange h', Option.map_map, Option.map_map]
    rfl
  refine ⟨?_, fun t => ?_, fun x => ?_, h_neighbors, fun x => ?_, fun a b => ?_, ?_, h_isPrecolored,
    h_occurrences, fun x => ?_⟩
  · rw [h'.nodes_eq, h.nodes_eq, List.map_map]
    exact List.map_congr_left fun e _ =>
      congrArg (NodeId.mk · e.2) (Equiv.swap_apply_left tag tag').symm
  · rw [h'.node_eq, h.node_eq]
    split
    · exact congrArg Except.ok (plan.exchange_node tag tag' t).symm
    · rfl
  · rw [temp, temp, toOption_map, toOption_map, toOption_entry, toOption_entry, h.node?_exchange h',
      Option.map_map]
    rfl
  · rw [toOption_predecessors, toOption_predecessors, h.node?_exchange h', Option.map_map,
      Option.map_map]
    rfl
  · rw [h'.interferes_eq, h.interferes_eq]
  · rw [h'.moves, h.moves, List.map_map]
    exact List.map_congr_left fun m _ =>
      congrArg₂ Move.mk (plan.exchange_node tag tag' m.1).symm (plan.exchange_node tag tag' m.2).symm
  · rw [spillCost, spillCost, toOption_map, toOption_map, h_neighbors, Option.map_map, h_isPrecolored,
      h_occurrences, h'.model, h.model]
    simp only [Function.comp_def, List.length_map]

end Realizes

end InterferenceGraph

/-! ## One blueprint for all tables -/

namespace FlowGraph

variable {flow : FlowGraph} {tag : GraphTag} {body : List Instr}

/-- All interference graphs of a flow graph for the same registers are drawn from one blueprint. -/
theorem LaidOut.exists_blueprint (h : flow.LaidOut tag body) (registers : List Temp)
    (model : SpillCost) :
    ∃ plan : Blueprint, plan.moves = body.filterMap Instr.ends? ∧
      ∀ {live : Liveness}, live.IsTableOf flow → ∀ igTag,
        ∃ ig, InterferenceGraph.build igTag flow live registers model = .ok ig ∧
          ig.Realizes plan igTag := by
  obtain ⟨liveOuts, h_outs, h_mentioned⟩ := h.exists_liveOuts default
  refine ⟨.ofBody registers flow.body liveOuts model, ?_, fun {live} h_table igTag => ?_⟩
  · rw [h.body_eq]
    rfl
  · rw [h_table.eq_solved (Liveness.isTableOf_compute h default)] at h_outs
    exact InterferenceGraph.build_realizes h_outs h_mentioned registers model igTag

/-- The solver makes no difference for an interference graph.  For every body that has a flow
graph, both solvers settle, and the graphs that are built from what they find are alike, each
with its own tag: the same temporaries at the same positions, with the same neighbors and
predecessors in the same order, the same moves and the same counts. -/
theorem interferenceGraph_alike (h_build : build tag body = .ok flow) (igTag igTag' : GraphTag)
    (registers : List Temp) (model : SpillCost) (solver solver' : Dataflow.Solver) :
    (Liveness.run flow solver (.const _ ∅)).status = .settled ∧
      (Liveness.run flow solver' (.const _ ∅)).status = .settled ∧
      ∃ ig ig', flow.interferenceGraph igTag registers ⟨solver, model⟩ = .ok ig ∧
        flow.interferenceGraph igTag' registers ⟨solver', model⟩ = .ok ig' ∧
        InterferenceGraph.Alike (.exchange igTag igTag') ig ig' := by
  have h := build_laidOut h_build
  obtain ⟨plan, _, h_blueprint⟩ := h.exists_blueprint registers model
  obtain ⟨ig, h_ig, h_realizes⟩ := h_blueprint (Liveness.isTableOf_compute h solver) igTag
  obtain ⟨ig', h_ig', h_realizes'⟩ := h_blueprint (Liveness.isTableOf_compute h solver') igTag'
  exact ⟨(Liveness.run_eq h solver).1, (Liveness.run_eq h solver').1, ig, ig', h_ig, h_ig',
    h_realizes.alike h_realizes'⟩

theorem interferenceGraph_alike_copyLoop :
    build ⟨0⟩ Liveness.copyLoop = .ok Liveness.copyLoopFlow ∧
      (Liveness.run Liveness.copyLoopFlow .roundRobin (.const _ ∅)).status = .settled ∧
      (Liveness.run Liveness.copyLoopFlow .worklist (.const _ ∅)).status = .settled ∧
      ∃ ig ig',
        Liveness.copyLoopFlow.interferenceGraph ⟨1⟩ [⟨"x"⟩] ⟨.roundRobin, .useDensity⟩ = .ok ig ∧
          Liveness.copyLoopFlow.interferenceGraph ⟨2⟩ [⟨"x"⟩] ⟨.worklist, .useDensity⟩ = .ok ig' ∧
          InterferenceGraph.Alike (.exchange ⟨1⟩ ⟨2⟩) ig ig' :=
  ⟨Liveness.build_copyLoop, interferenceGraph_alike Liveness.build_copyLoop ⟨1⟩ ⟨2⟩ [⟨"x"⟩]
    .useDensity .roundRobin .worklist⟩

end FlowGraph

end LiveRange
