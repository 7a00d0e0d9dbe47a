import LiveRange.Proofs.Interference.Renaming

/-! # The nodes, the moves and the counts of an interference graph

Beside its edges an interference graph keeps what an allocator weighs: which node belongs to which
temporary, which nodes are registers, how often each temporary stands in the body, and the moves.
Registers, mentions and edges are entered in three passes that all look a node up and make it if
it is new, so a temporary may come up in each of them, and several times in one list.

`InterferenceGraph.Census` says what is on record in the end, in terms of the body and the list of
registers alone.  A graph that is drawn from the blueprint of the body passes it
(`Realizes.census`), and the graph of a body is drawn from it (`FlowGraph.interferenceGraph_census`). -/

namespace LiveRange

/-- How often a temporary stands in the lists of what instructions define and use. -/
def mentionCount (body : List Instr) (t : Temp) : Nat :=
  (body.map fun instr => instr.defs.count t + instr.uses.count t).sum

theorem count_mentions (body : List Instr) (t : Temp) :
    (mentions body).count t = mentionCount body t := by
  rw [mentions, List.count_flatMap]
  refine congrArg List.sum (List.map_congr_left fun instr _ => ?_)
  exact List.count_append

namespace InterferenceGraph

variable {ig : InterferenceGraph} {plan : Blueprint} {tag : GraphTag} {t u : Temp} {x : NodeId}

/-- What a graph has on record of a body and of the machine registers. -/
structure Census (ig : InterferenceGraph) (tag : GraphTag) (registers : List Temp)
    (body : List Instr) (model : SpillCost) : Prop where
  /-- The nodes in the order in which they are made, with their temporaries: the registers, then
  what each instruction defines and uses, each at its first place. -/
  labels : ig.graph.graph.labels =
    (registers ++ body.flatMap fun instr => instr.defs ++ instr.uses).eraseDups.zipIdx.map
      fun e => (⟨tag, e.2⟩, e.1)
  /-- No node is made for the edges. -/
  unextended :
    ig.graph.graph.labels = (ofTemps tag registers (mentions body) model).graph.graph.labels
  isPrecolored : ∀ x, ig.isPrecolored x = true ↔ ∃ t ∈ registers, ig.node t = .ok x
  occurrences : ∀ t x, ig.node t = .ok x → ig.occurrences x = mentionCount body t
  /-- A node of a register alone has no occurrences, nor has a handle of no node. -/
  unmentioned : ∀ x, (∀ t ∈ mentions body, ig.node t ≠ .ok x) → ig.occurrences x = 0
  moves : List.Forall₂ (fun m ends => ig.node ends.1 = .ok m.dst ∧ ig.node ends.2 = .ok m.src)
    ig.moves (body.filterMap Instr.ends?)
  spillCost : ∀ t x, ig.node t = .ok x →
    ∃ degree : Nat, (degree : ℕ∞) = {u | ig.interferes t u = .ok true}.encard ∧
      ig.spillCost x = .ok (model.cost (mentionCount body t) degree (decide (t ∈ registers)))

namespace Realizes

/-- A node is listed among those of some temporaries exactly if one of these has it. -/
theorem mem_map_node (h : ig.Realizes plan tag) {ts : List Temp}
    (h_known : ∀ t ∈ ts, t ∈ plan.temps) : x ∈ ts.map (plan.node tag) ↔ ∃ t ∈ ts, ig.node t = .ok x := by
  rw [List.mem_map]
  refine exists_congr fun t => and_congr_right fun ht => ?_
  rw [h.node_eq_ok_iff, and_iff_right (h_known t ht)]

theorem isPrecolored_iff (h : ig.Realizes plan tag) :
    ig.isPrecolored x = true ↔ ∃ t ∈ plan.registers, ig.node t = .ok x := by
  rw [isPrecolored, decide_eq_true_eq, h.precolored,
    h.mem_map_node fun t ht => Blueprint.mem_temps.mpr (.inl ht)]

theorem isPrecolored_eq (h : ig.Realizes plan tag) (hx : ig.node t = .ok x) :
    ig.isPrecolored x = decide (t ∈ plan.registers) := by
  rw [Bool.eq_iff_iff, decide_eq_true_eq, h.isPrecolored_iff]
  refine ⟨fun h_register => ?_, fun ht => ⟨t, ht, hx⟩⟩
  -- different temporaries have different nodes
  obtain ⟨u, hu, hx'⟩ := h_register
  obtain ⟨ht, h_node⟩ := h.node_eq_ok_iff.mp hx
  have h_node' := (h.node_eq_ok_iff.mp hx').2
  exact Blueprint.node_inj ht (h_node.trans h_node'.symm) ▸ hu

theorem occurrences_eq (h : ig.Realizes plan tag) (hx : ig.node t = .ok x) :
    ig.occurrences x = plan.mentions.count t := by
  obtain ⟨_, rfl⟩ := h.node_eq_ok_iff.mp hx
  rw [occurrences, h.mentioned, List.count_eq_countP, List.count_eq_countP, List.countP_map]
  refine List.countP_congr fun u hu => ?_
  simp only [Function.comp_apply, beq_iff_eq]
  exact ⟨Blueprint.node_inj (Blueprint.mem_temps.mpr (.inr hu)), congrArg _⟩

theorem occurrences_eq_zero (h : ig.Realizes plan tag)
    (hx : ∀ t ∈ plan.mentions, ig.node t ≠ .ok x) : ig.occurrences x = 0 := by
  rw [occurrences, List.count_eq_zero, h.mentioned,
    h.mem_map_node fun t ht => Blueprint.mem_temps.mpr (.inr ht)]
  rintro ⟨t, ht, h_node⟩
  exact hx t ht h_node

theorem forall₂_moves (h : ig.Realizes plan tag) :
    List.Forall₂ (fun m ends => ig.node ends.1 = .ok m.dst ∧ ig.node ends.2 = .ok m.src)
      ig.moves plan.moves := by
  rw [h.moves, List.forall₂_map_left_iff, List.forall₂_same]
  intro ends h_ends
  have h_known := h.closed.moves ends h_ends
  exact ⟨h.node_eq_ok_iff.mpr ⟨h_known.1, rfl⟩, h.node_eq_ok_iff.mpr ⟨h_known.2, rfl⟩⟩

/-- Each edge that leaves a node leads to another temporary that interferes, so there are as many
as there are such temporaries, although every pair is drawn both ways. -/
theorem encard_interfering (h : ig.Realizes plan tag) (ht : t ∈ plan.temps) :
    {u | ig.interferes t u = .ok true}.encard = (plan.partners t).length := by
  have h_set : {u | ig.interferes t u = .ok true} = ((plan.partners t).toFinset : Set Temp) := by
    ext u
    have h_known : u ∈ plan.partners t → u ∈ plan.temps := fun h_partner =>
      (h.closed.arcs _ (Blueprint.mem_partners.mp h_partner)).2
    rw [Set.mem_ofPred_eq, h.interferes_eq, if_pos ht, Finset.mem_coe, List.mem_toFinset]
    split
    · rw [Except.ok.injEq, decide_eq_true_eq]
    · rename_i hu
      exact ⟨nofun, fun h_partner => absurd (h_known h_partner) hu⟩
  rw [h_set, Set.encard_coe_eq_coe_finsetCard, List.toFinset_card_of_nodup Blueprint.nodup_partners]

theorem spillCost_eq (h : ig.Realizes plan tag) (hx : ig.node t = .ok x) :
    ig.spillCost x = .ok (plan.model.cost (plan.mentions.count t) (plan.partners t).length
      (decide (t ∈ plan.registers))) := by
  have h_flag := h.isPrecolored_eq hx
  have h_count := h.occurrences_eq hx
  obtain ⟨ht, rfl⟩ := h.node_eq_ok_iff.mp hx
  have h_neighbors : ig.neighbors (plan.node tag t) = .ok ((plan.partners t).map (plan.node tag)) := by
    rw [neighbors, entry_eq_ok.mpr (h.node?_eq ht)]
    rfl
  rw [spillCost, h_flag, h_count, h.model, h_neighbors, map_eq_ok]
  exact ⟨_, rfl, by rw [List.length_map]⟩

/-- A graph that is drawn from the blueprint of a body has the body on record. -/
theorem census {registers : List Temp} {body : List Instr} {liveOuts : List (List Temp)}
    {model : SpillCost} (h : ig.Realizes (.ofBody registers body liveOuts model) tag) :
    ig.Census tag registers body model where
  labels := h.lists.labels
  unextended := h.lists.labels.trans
    (ofTemps_realizes tag registers (mentions body) model).lists.labels.symm
  isPrecolored _ := h.isPrecolored_iff
  occurrences t _ hx := (h.occurrences_eq hx).trans (count_mentions body t)
  unmentioned _ hx := h.occurrences_eq_zero hx
  moves := h.forall₂_moves
  spillCost t x hx := by
    refine ⟨_, (h.encard_interfering (h.node_eq_ok_iff.mp hx).1).symm, ?_⟩
    rw [h.spillCost_eq hx, ← count_mentions]
    rfl

end Realizes

end InterferenceGraph

namespace FlowGraph

variable {flow : FlowGraph} {tag : GraphTag} {body : List Instr}

/-- The interference graph of a body has the body on record exactly.  The nodes are those of the
registers and of the temporaries that instructions name, by first mention, and none is made for the
edges; the registers alone are precolored; a temporary occurs as often as instructions name it; there
is one move for each move instruction, between the nodes of its two ends; and the cost of a temporary
is that of its occurrences, of the number of temporaries that interfere with it, and of whether it is
a register. -/
theorem interferenceGraph_census (h_build : build tag body = .ok flow) (igTag : GraphTag)
    (registers : List Temp) (config : Config) :
    ∃ ig, flow.interferenceGraph igTag registers config = .ok ig ∧
      ig.Census igTag registers body config.spillCost := by
  have h := build_laidOut h_build
  obtain ⟨liveOuts, h_outs, h_mentioned⟩ := h.exists_liveOuts config.solver
  obtain ⟨ig, h_ig, h_realizes⟩ :=
    InterferenceGraph.build_realizes h_outs h_mentioned registers config.spillCost igTag
  rw [h.body_eq] at h_realizes
  exact ⟨ig, h_ig, h_realizes.census⟩

theorem interferenceGraph_census_copyLoop :
    build ⟨0⟩ Liveness.copyLoop = .ok Liveness.copyLoopFlow ∧
      ∃ ig, Liveness.copyLoopFlow.interferenceGraph ⟨1⟩ [⟨"x"⟩, ⟨"r"⟩, ⟨"x"⟩] default = .ok ig ∧
        ig.Census ⟨1⟩ [⟨"x"⟩, ⟨"r"⟩, ⟨"x"⟩] Liveness.copyLoop .useDensity :=
  ⟨Liveness.build_copyLoop,
    interferenceGraph_census Liveness.build_copyLoop ⟨1⟩ [⟨"x"⟩, ⟨"r"⟩, ⟨"x"⟩] default⟩

end FlowGraph

end LiveRange
