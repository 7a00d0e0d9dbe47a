import LiveRange.Flow.Dump
import LiveRange.Liveness.Basic

/-! # Liveness as text

A dump of a table on a flow graph has one line for each node: the line of the flow graph's
dump, with the temporaries live after the node in place of the instruction. -/

namespace LiveRange.Liveness

/-- The last part of a line: the temporaries live after the node, by name, or that the
table does not know the node. -/
def describeOut (live : Liveness) (node : NodeId) : String :=
  match live.liveOut node with
  | .ok temps => FlowGraph.spaced (temps.toList.map Temp.name)
  | .error _ => "<not analysed>"

/-- The dump of a table on a flow graph, which need not be the one it was made for. -/
def dump (live : Liveness) (flow : FlowGraph) : String :=
  String.join <| flow.graph.entries.map fun (id, node) =>
    FlowGraph.describe id node ++ live.describeOut id ++ "\n"

end LiveRange.Liveness
