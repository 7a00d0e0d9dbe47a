import LiveRange.Proofs.Interference.Belonging

/-! # The order in which neighbors are found

When an operation redefines the destination of an earlier move, building goes back and sets the two
ends of that move apart.  `InterferenceGraph.buildOnward` never goes back.  Both give the same graph,
whatever flow graph and table they are given (`InterferenceGraph.build_onward`): the two ends are the
very pair that is set apart next, and setting it apart once more changes nothing.

So the neighbors of a temporary are found in one scan over the instructions (`FlowGraph.scan`): each
temporary that is defined meets those that are live after the instruction, and the first meeting of
two temporaries puts each at the end of the other's list (`Session.run_scanned`). -/

namespace LiveRange

/-! ## Building without going back -/

namespace InterferenceGraph

variable {ig : InterferenceGraph}

/-- Records one definition by an operation, with no look at earlier moves. -/
def addDefOnward (ig : InterferenceGraph) (liveOut : List Temp) (t : Temp) : InterferenceGraph :=
  let (d, ig) := ig.nodeFor t
  (liveOut.filter (· ≠ t)).foldl (fun ig t =>
    let (o, ig) := ig.nodeFor t
    ig.separate d o) ig

def addInstrOnward (ig : InterferenceGraph) (instr : Instr) (liveOut : List Temp) :
    InterferenceGraph :=
  match instr with
  | .move _ dst src => ig.addMove dst src liveOut
  | _ => instr.defs.foldl (addDefOnward · liveOut) ig

/-- The interference graph of a flow graph, built like `build` but without going back over moves. -/
def buildOnward (tag : GraphTag) (flow : FlowGraph) (live : Liveness) (registers : List Temp)
    (model : SpillCost) : Except AnalysisError InterferenceGraph := do
  let liveOuts ← flow.nodes.mapM live.liveOutTemps
  let ig := ofTemps tag registers (mentions flow.body) model
  return (flow.body.zip liveOuts).foldl (fun ig (instr, liveOut) => ig.addInstrOnward instr liveOut) ig

/-- Steps that do the same to every graph in order, and leave it in order, do the same in sequence. -/
theorem foldl_onward {α : Type} {step step' : InterferenceGraph → α → InterferenceGraph}
    (h_step : ∀ ig : InterferenceGraph, ig.graph.Sound →
      ∀ z, step ig z = step' ig z ∧ (step' ig z).graph.Sound)
    (h : ig.graph.Sound) (zs : List α) :
    zs.foldl step ig = zs.foldl step' ig ∧ (zs.foldl step' ig).graph.Sound := by
  induction zs generalizing ig with
  | nil => exact ⟨rfl, h⟩
  | cons z rest ih =>
    obtain ⟨h_same, h_sound⟩ := h_step ig h z
    rw [List.foldl_cons, List.foldl_cons, h_same]
    exact ih h_sound

theorem sound_nodeFor (h : ig.graph.Sound) (t : Temp) : (ig.nodeFor t).2.graph.Sound :=
  h.nodeFor t

theorem addDef_onward (h : ig.graph.Sound) (liveOut : List Temp) (t : Temp) :
    ig.addDef liveOut t = ig.addDefOnward liveOut t ∧ (ig.addDefOnward liveOut t).graph.Sound := by
  refine foldl_onward (fun ig h o => ?_) (sound_nodeFor h t) _
  exact ⟨separateMoves_separate (sound_nodeFor h o) _ _, sound_separate (sound_nodeFor h o) _ _⟩

theorem sound_addMove (h : ig.graph.Sound) (dst src : Temp) (liveOut : List Temp) :
    (ig.addMove dst src liveOut).graph.Sound := by
  have h_ends : ((ig.nodeFor dst).2.nodeFor src).2.graph.Sound :=
    sound_nodeFor (sound_nodeFor h dst) src
  exact (foldl_onward (fun _ h o => ⟨rfl, sound_separate (sound_nodeFor h o) _ _⟩) h_ends _).2

theorem addInstr_onward (h : ig.graph.Sound) (instr : Instr) (liveOut : List Temp) :
    ig.addInstr instr liveOut = ig.addInstrOnward instr liveOut ∧
      (ig.addInstrOnward instr liveOut).graph.Sound := by
  cases instr with
  | oper template dst src jump => exact foldl_onward (fun _ h => addDef_onward h liveOut) h dst
  | move template dst src => exact ⟨rfl, sound_addMove h dst src liveOut⟩
  | label text name => exact ⟨rfl, h⟩

/-- Going back over moves makes no difference, for any flow graph and any table. -/
theorem build_onward (tag : GraphTag) (flow : FlowGraph) (live : Liveness) (registers : List Temp)
    (model : SpillCost) :
    build tag flow live registers model = buildOnward tag flow live registers model := by
  obtain ⟨h_indexed, h_edges, _⟩ := ofTemps_ready tag registers (mentions flow.body) model
  have h_sound : (ofTemps tag registers (mentions flow.body) model).graph.Sound :=
    ⟨h_indexed, _, h_edges⟩
  -- both look up first what is live after the nodes, and are refused alike
  refine congrArg (flow.nodes.mapM live.liveOutTemps >>= ·) (funext fun liveOuts => ?_)
  exact congrArg Except.ok
    (foldl_onward (fun _ h (instr, liveOut) => addInstr_onward h instr liveOut) h_sound _).1

end InterferenceGraph

/-! ## The scan -/

/-- The other end of a pair that has one end at a temporary. -/
def otherEnd? (t : Temp) (p : Temp × Temp) : Option Temp :=
  if p.1 = t then some p.2 else if p.2 = t then some p.1 else none

theorem otherEnd?_of_ne {t : Temp} {p : Temp × Temp} (h : p.1 ≠ p.2) :
    (([p, p.swap].filter (·.1 = t)).map Prod.snd = (otherEnd? t p).toList) ∧
      ([p, p.swap].filter (·.2 = t)).map Prod.fst = (otherEnd? t p).toList := by
  unfold otherEnd?
  by_cases h_first : p.1 = t
  · subst h_first
    simp [h.symm]
  · by_cases h_second : p.2 = t <;> simp [h_first, h_second]

namespace Blueprint

variable {plan : Blueprint}

/-- An edge leads each way between the ends of a pair, so where the edges from a node lead is where
the edges to it come from, in the same order. -/
theorem partners_eq (h : ∀ p ∈ plan.pairs, p.1 ≠ p.2) (t : Temp) :
    plan.partners t = (plan.pairs.filterMap (otherEnd? t)).eraseDups ∧
      plan.sources t = (plan.pairs.filterMap (otherEnd? t)).eraseDups := by
  rw [partners_eq_eraseDups, sources_eq_eraseDups, List.filterMap_eq_flatMap_toList,
    List.filter_flatMap, List.filter_flatMap, List.map_flatMap, List.map_flatMap]
  constructor
  · exact congrArg List.eraseDups (List.flatMap_congr fun p hp => (otherEnd?_of_ne (h p hp)).1)
  · exact congrArg List.eraseDups (List.flatMap_congr fun p hp => (otherEnd?_of_ne (h p hp)).2)

theorem ne_of_mem_ofBody {registers : List Temp} {body : List Instr} {liveOuts : List (List Temp)}
    {model : SpillCost} : ∀ p ∈ (ofBody registers body liveOuts model).pairs, p.1 ≠ p.2 := by
  intro p hp
  obtain ⟨_, _, h_pair⟩ := List.mem_flatMap.mp hp
  exact (Instr.mem_conflicts.mp h_pair).2.2.1.symm

end Blueprint

theorem InterferenceGraph.Realizes.mapM_node_partners {ig : InterferenceGraph} {plan : Blueprint}
    {tag : GraphTag} (h : ig.Realizes plan tag) (t : Temp) :
    (plan.partners t).mapM ig.node = .ok ((plan.partners t).map (plan.node tag)) :=
  mapM_eq_ok_map fun _ hu =>
    h.node_eq_ok_iff.mpr ⟨(h.closed.arcs _ (Blueprint.mem_partners.mp hu)).2, rfl⟩

namespace FlowGraph

variable {flow : FlowGraph} {live : Liveness} {tag : GraphTag} {body : List Instr} {a : NodeId}

/-- The temporaries that a table has live after a node, by first mention. -/
def liveByMention (flow : FlowGraph) (live : Liveness) (a : NodeId) : List Temp :=
  (mentions flow.body).eraseDups.filter fun t => (live.isLiveOut a t).toOption = some true

/-- The pairs that are met when the instructions are scanned in order: each temporary that is defined,
in the order of the definitions, with each temporary live after the instruction by first mention, but
not with itself, and not the destination of a move with its source. -/
def scan (flow : FlowGraph) (live : Liveness) : List (Temp × Temp) :=
  flow.graph.entries.flatMap fun (a, node) => node.payload.conflicts (flow.liveByMention live a)

/-- The temporaries that one meets in a scan, by first meeting. -/
def met (flow : FlowGraph) (live : Liveness) (t : Temp) : List Temp :=
  ((flow.scan live).filterMap (otherEnd? t)).eraseDups

theorem mem_mentions_of_mem_liveByMention {ts : List Temp}
    (h_ts : ts ∈ flow.nodes.map (flow.liveByMention live)) {t : Temp} (ht : t ∈ ts) :
    t ∈ mentions flow.body := by
  obtain ⟨a, _, rfl⟩ := List.mem_map.mp h_ts
  exact List.mem_eraseDups.mp (List.mem_of_mem_filter ht)

/-- A table lists what is live after a node by first mention in the body. -/
theorem liveOutTemps_eq (h : live.IsTableOf flow) (h_flow : flow.LaidOut tag body)
    (ha : a ∈ flow.nodes) : live.liveOutTemps a = .ok (flow.liveByMention live a) := by
  obtain ⟨i, rfl⟩ := h_flow.exists_position ha
  have h_row := Liveness.row_eq_ok (h.row?_eq h_flow i)
  have h_nodup : flow.numbering.temps.Nodup := Numbering.nodup_ofMentions _
  rw [Liveness.liveOutTemps, map_eq_ok]
  refine ⟨_, h_row, ?_⟩
  rw [h.numbering, Numbering.decode_eq_filter h_nodup]
  refine List.filter_congr fun t _ => ?_
  rw [Liveness.isLiveOut, toOption_map, h_row, h.numbering]
  simp [Except.toOption]

/-- The pairs that are set apart, instruction by instruction, are the ones that the scan meets. -/
theorem partners_ofBody (flow : FlowGraph) (live : Liveness) (registers : List Temp)
    (model : SpillCost) (t : Temp) :
    (Blueprint.ofBody registers flow.body (flow.nodes.map (flow.liveByMention live)) model).partners t =
        flow.met live t ∧
      (Blueprint.ofBody registers flow.body (flow.nodes.map (flow.liveByMention live)) model).sources t =
        flow.met live t := by
  have h_pairs : (flow.body.zip (flow.nodes.map (flow.liveByMention live))).flatMap
      (fun e => e.1.conflicts e.2) = flow.scan live := by
    rw [body, nodes, Graph.nodes, List.map_map, List.zip_map', List.flatMap_map]
    rfl
  -- no pair has equal ends, so it counts once for each of them
  rw [met, ← h_pairs]
  exact Blueprint.partners_eq Blueprint.ne_of_mem_ofBody t

end FlowGraph

/-! ## In a session -/

namespace Session

variable {S : Session} {e : Entry} {t : Table}

/-- A table that covers the nodes of a flow graph lists what is live after each of them by first
mention. -/
theorem Coherent.liveOutTemps_eq (h : S.Coherent) (h_e : e ∈ S.flows) (h_t : t ∈ S.tables)
    (h_covers : ∀ a ∈ e.flow.nodes, ∃ ts, t.live.liveOut a = .ok ts) :
    e.flow.nodes.mapM t.live.liveOutTemps =
      .ok (e.flow.nodes.map (e.flow.liveByMention t.live)) := by
  obtain ⟨_, _, _, h_laid⟩ := h.laidOut e h_e
  refine mapM_eq_ok_map fun a ha => ?_
  by_cases h_origin : S.origin? t = some e.origin
  · exact FlowGraph.liveOutTemps_eq (h.isTableOf h_e h_t h_origin) h_laid ha
  · -- a table of an unrelated flow graph covers no node
    obtain ⟨_, h_out⟩ := h_covers a ha
    rw [Liveness.liveOut, Liveness.row_eq_error (h.row?_eq_none h_e h_t h_origin ha)] at h_out
    cases h_out

/-- Going back over moves is redundant: for every flow graph and every table, building gives the same
without it.

In every session, a table that covers the nodes of a flow graph gives an interference graph.  The
neighbors of a temporary there, as successors and as predecessors, are the temporaries that it meets
in a scan over the instructions, by first meeting. -/
theorem run_scanned (requests : List Request) :
    (∀ tag flow live registers model,
      InterferenceGraph.build tag flow live registers model =
        InterferenceGraph.buildOnward tag flow live registers model) ∧
    ∀ e ∈ (run requests).flows, ∀ t ∈ (run requests).tables,
      (∀ a ∈ e.flow.nodes, ∃ ts, t.live.liveOut a = .ok ts) → ∀ tag registers model,
        ∃ ig, InterferenceGraph.build tag e.flow t.live registers model = .ok ig ∧
          ∀ u x, ig.node u = .ok x →
            ∃ neighbors, (e.flow.met t.live u).mapM ig.node = .ok neighbors ∧
              ig.graph.graph.successors x = .ok neighbors ∧
              ig.graph.graph.predecessors x = .ok neighbors := by
  refine ⟨InterferenceGraph.build_onward, fun e h_e t h_t h_covers tag registers model => ?_⟩
  have h_outs := (run_coherent requests).liveOutTemps_eq h_e h_t h_covers
  obtain ⟨ig, h_ig, h_realizes⟩ := InterferenceGraph.build_realizes h_outs
    (fun _ h_ts _ => FlowGraph.mem_mentions_of_mem_liveByMention h_ts) registers model tag
  refine ⟨ig, h_ig, fun u x hx => ?_⟩
  obtain ⟨hu, rfl⟩ := h_realizes.node_eq_ok_iff.mp hx
  have h_node := Graph.node_eq_ok.mpr (h_realizes.node?_eq hu)
  obtain ⟨h_partners, h_sources⟩ :=
    FlowGraph.partners_ofBody e.flow t.live registers model u
  rw [← h_partners]
  refine ⟨_, h_realizes.mapM_node_partners u, map_eq_ok.mpr ⟨_, h_node, rfl⟩, ?_⟩
  exact map_eq_ok.mpr ⟨_, h_node, congrArg (List.map _) (h_sources.trans h_partners.symm)⟩

theorem run_scanned_changedCopy :
    ∃ flow, (run [.build FlowGraph.changedCopy, .compute 0 .worklist]).flows = [⟨flow, 0⟩] ∧
      (run [.build FlowGraph.changedCopy, .compute 0 .worklist]).tables =
        [⟨.compute flow .worklist, 0⟩] ∧
      (∀ a ∈ flow.nodes, ∃ ts, (Liveness.compute flow .worklist).liveOut a = .ok ts) ∧
      ∃ ig, InterferenceGraph.build ⟨1⟩ flow (.compute flow .worklist) [] default = .ok ig ∧
        ∀ u x, ig.node u = .ok x →
          ∃ neighbors, (flow.met (.compute flow .worklist) u).mapM ig.node = .ok neighbors ∧
            ig.graph.graph.successors x = .ok neighbors ∧
            ig.graph.graph.predecessors x = .ok neighbors := by
  obtain ⟨flow, h_build, h_flows, h_tables⟩ :
      ∃ flow, FlowGraph.build ⟨0⟩ FlowGraph.changedCopy = .ok flow ∧
        (run [.build FlowGraph.changedCopy, .compute 0 .worklist]).flows = [⟨flow, 0⟩] ∧
        (run [.build FlowGraph.changedCopy, .compute 0 .worklist]).tables =
          [⟨.compute flow .worklist, 0⟩] := ⟨_, rfl, rfl, rfl⟩
  have h_laid := FlowGraph.build_laidOut h_build
  have h_covers : ∀ a ∈ flow.nodes, ∃ ts, (Liveness.compute flow .worklist).liveOut a = .ok ts := by
    intro a ha
    rcases (Liveness.isTableOf_compute h_laid .worklist).tells_or_refuses h_laid a with h | h
    · exact h.2.liveOut
    · exact absurd ha h.1
  have h_flow : ⟨flow, 0⟩ ∈ (run [.build FlowGraph.changedCopy, .compute 0 .worklist]).flows := by
    rw [h_flows]
    exact List.mem_singleton_self _
  have h_table : ⟨.compute flow .worklist, 0⟩ ∈
      (run [.build FlowGraph.changedCopy, .compute 0 .worklist]).tables := by
    rw [h_tables]
    exact List.mem_singleton_self _
  exact ⟨flow, h_flows, h_tables, h_covers,
    (run_scanned _).2 _ h_flow _ h_table h_covers ⟨1⟩ [] default⟩

end Session

end LiveRange
