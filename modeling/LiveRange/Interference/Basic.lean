import LiveRange.Error
import LiveRange.Graph.Keyed
import LiveRange.SpillCost

/-! # Interference graphs

An `InterferenceGraph` has temporaries for nodes, and an edge between two of them when they
must not share a register.  Every edge is stored in both directions, and no temporary is
its own neighbor.  Beside the graph stand the moves, whose two ends an allocator would like
to put into one register, and what the spill costs are computed from.

* `InterferenceGraph.node`, `InterferenceGraph.temp` — from a temporary to its node and back;
* `InterferenceGraph.interferes`, `InterferenceGraph.neighbors` — who must not share;
* `InterferenceGraph.isPrecolored`, `InterferenceGraph.occurrences`,
  `InterferenceGraph.spillCost` — what is known of one temporary. -/

namespace LiveRange

/-- The two ends of a move instruction. -/
structure Move where
  dst : NodeId
  src : NodeId
deriving DecidableEq

/-- Which temporaries must not share a register. -/
structure InterferenceGraph where
  graph : KeyedGraph Temp
  /-- The moves in the order of the instructions. -/
  moves : List Move
  /-- The nodes of the machine registers. -/
  precolored : List NodeId
  /-- The nodes of the temporaries that instructions mention, once for each mention. -/
  mentioned : List NodeId
  model : SpillCost

namespace InterferenceGraph

/-- A copy under its own tag, with the same nodes. -/
def clone (ig : InterferenceGraph) (tag : GraphTag) : InterferenceGraph :=
  { ig with graph := ig.graph.clone tag }

def node (ig : InterferenceGraph) (t : Temp) : Except AnalysisError NodeId :=
  match ig.graph.lookup t with
  | some id => .ok id
  | none => .error (.tempNotFound t)

def entry (ig : InterferenceGraph) (id : NodeId) : Except AnalysisError (Node Temp) :=
  match ig.graph.graph.node? id with
  | some node => .ok node
  | none => .error (.nodeNotFound id)

def temp (ig : InterferenceGraph) (id : NodeId) : Except AnalysisError Temp :=
  Node.payload <$> ig.entry id

/-- The nodes that must not share a register with a node, in the order in which they were
found. -/
def neighbors (ig : InterferenceGraph) (id : NodeId) : Except AnalysisError (List NodeId) :=
  Node.succs <$> ig.entry id

def interferes (ig : InterferenceGraph) (a b : Temp) : Except AnalysisError Bool := do
  let a ← ig.node a
  let b ← ig.node b
  return decide (b ∈ (← ig.neighbors a))

def isPrecolored (ig : InterferenceGraph) (id : NodeId) : Bool := decide (id ∈ ig.precolored)

/-- How often instructions mention a node's temporary. -/
def occurrences (ig : InterferenceGraph) (id : NodeId) : Nat := ig.mentioned.count id

def spillCost (ig : InterferenceGraph) (id : NodeId) : Except AnalysisError Float :=
  (fun neighbors => ig.model.cost (ig.occurrences id) neighbors.length (ig.isPrecolored id)) <$>
    ig.neighbors id

end InterferenceGraph

end LiveRange
