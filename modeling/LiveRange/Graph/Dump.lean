import LiveRange.Graph.Basic

/-! # Graphs as text

A dump has one line for each live node, in the order of creation: the node's name, a
colon, and the names of its successors, each followed by a blank. -/

namespace LiveRange.Graph

variable {P : Type}

/-- The dump of a graph whose nodes are named by `name`. -/
def dumpWith (g : Graph P) (name : NodeId → P → String) : String :=
  String.join <| g.entries.map fun (id, node) =>
    let succs := node.succs.filterMap fun succ => (g.get? succ).map fun p => name succ p ++ " "
    name id node.payload ++ ": " ++ String.join succs ++ "\n"

def dump (g : Graph P) : String := g.dumpWith fun id _ => id.text

end LiveRange.Graph
