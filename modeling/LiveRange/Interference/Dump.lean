import LiveRange.Graph.Dump
import LiveRange.Interference.Basic

/-! # Interference graphs as text

A dump is that of the graph, its nodes named by their temporaries, followed by one line for
each move: destination, arrow, source. -/

namespace LiveRange.InterferenceGraph

def dump (ig : InterferenceGraph) : String :=
  let name (id : NodeId) := ((ig.graph.graph.get? id).map Temp.name).getD ""
  ig.graph.graph.dumpWith (fun _ t => t.name) ++
    String.join (ig.moves.map fun m => name m.dst ++ " <= " ++ name m.src ++ "\n")

end LiveRange.InterferenceGraph
