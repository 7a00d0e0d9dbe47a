import LiveRange.Config
import LiveRange.Interference.Basic
import LiveRange.Liveness.Solve

/-! # Building interference graphs

`InterferenceGraph.build` makes a node for every machine register and every temporary the
flow graph mentions.  Then, instruction by instruction, what is defined there interferes
with everything else that is live after it.

A move leaves one pair out: its two ends hold the same value, so they may share a register
even when the source stays live.  Should an operation redefine the destination while the
source is live, the two values differ from then on and the pair is set apart after all. -/

namespace LiveRange

namespace InterferenceGraph

def nodeFor (ig : InterferenceGraph) (t : Temp) : NodeId × InterferenceGraph :=
  let (id, graph) := ig.graph.nodeFor t
  (id, { ig with graph })

/-- Sets two nodes apart, in both directions.  A node is not set apart from itself. -/
def separate (ig : InterferenceGraph) (a b : NodeId) : InterferenceGraph :=
  if a = b then ig else { ig with graph := (ig.graph.link a b).link b a }

/-- Sets the ends of those moves apart that copied `live` into `defined`. -/
def separateMoves (ig : InterferenceGraph) (defined live : NodeId) : InterferenceGraph :=
  (ig.moves.filter fun m => m.dst = defined ∧ m.src = live).foldl
    (fun ig m => ig.separate m.dst m.src) ig

/-- Records a move: its destination interferes with what is live after it, apart from its
two ends. -/
def addMove (ig : InterferenceGraph) (dst src : Temp) (liveOut : List Temp) :
    InterferenceGraph :=
  let (d, ig) := ig.nodeFor dst
  let (s, ig) := ig.nodeFor src
  let ig := (liveOut.filter fun t => t ≠ dst ∧ t ≠ src).foldl (fun ig t =>
    let (o, ig) := ig.nodeFor t
    ig.separate d o) ig
  { ig with moves := ig.moves ++ [⟨d, s⟩] }

/-- Records one definition by an operation: the temporary interferes with everything else
that is live after it, also with the source of an earlier move into it. -/
def addDef (ig : InterferenceGraph) (liveOut : List Temp) (t : Temp) : InterferenceGraph :=
  let (d, ig) := ig.nodeFor t
  (liveOut.filter (· ≠ t)).foldl (fun ig t =>
    let (o, ig) := ig.nodeFor t
    (ig.separateMoves d o).separate d o) ig

/-- Records what an instruction sets apart, given the temporaries live after it. -/
def addInstr (ig : InterferenceGraph) (instr : Instr) (liveOut : List Temp) :
    InterferenceGraph :=
  match instr with
  | .move _ dst src => ig.addMove dst src liveOut
  | _ => instr.defs.foldl (addDef · liveOut) ig

/-- The graph with a node for every register and every mention, and no edges. -/
def ofTemps (tag : GraphTag) (registers mentions : List Temp) (model : SpillCost) :
    InterferenceGraph :=
  let (precolored, graph) := (KeyedGraph.empty tag).nodesFor registers
  let (mentioned, graph) := graph.nodesFor mentions
  { graph, moves := [], precolored, mentioned, model }

/-- The interference graph of a flow graph, from a liveness table.  A node of the flow graph
that the table does not know is reported. -/
def build (tag : GraphTag) (flow : FlowGraph) (live : Liveness) (registers : List Temp)
    (model : SpillCost) : Except AnalysisError InterferenceGraph := do
  let liveOuts ← flow.nodes.mapM live.liveOutTemps
  let ig := ofTemps tag registers (mentions flow.body) model
  return (flow.body.zip liveOuts).foldl (fun ig (instr, liveOut) => ig.addInstr instr liveOut) ig

end InterferenceGraph

/-- The interference graph of a flow graph whose liveness is solved first. -/
def FlowGraph.interferenceGraph (flow : FlowGraph) (tag : GraphTag) (registers : List Temp)
    (config : Config) : Except AnalysisError InterferenceGraph :=
  InterferenceGraph.build tag flow (.compute flow config.solver) registers config.spillCost

end LiveRange
